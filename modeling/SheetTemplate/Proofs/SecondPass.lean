import SheetTemplate.Proofs.AddedRelationships
import SheetTemplate.Proofs.RewrittenParts
import SheetTemplate.Proofs.SettledRows
import SheetTemplate.Proofs.WritableSheets

/-!
# A second pass

A pass that was made once need not be made again. What it has left of the sheet is numbered and in
order, so that a second pass without placeholders gives every row back as it is; links and headers
without placeholders stay; and all that is written is written over the same.

The second pass reads what the first has written, so the part of the sheet has to hold it: the same
part may be a table of the sheet as well, which is written after it.

## Key results

- `run_of_filled`: a pass over a sheet in which nothing is left to fill
- `second_pass_changes_nothing`: the same call twice
- `table_in_place_of_sheet`: the same call twice, where a table takes the part of the sheet
-/

namespace SheetTemplate

open Xml (Document Element)

namespace Fill

/-! ### Nothing to fill -/

/-- A link without a placeholder in its decoded target. -/
def PlainLink (rel : Element) : Prop :=
  Relationships.hasType "hyperlink" rel = true → ∀ target ∈ rel.attr? "Target",
    Placeholder.extract (String.ofList (Text.Percent.decodeText target.toList)) = []

instance (rel : Element) : Decidable (PlainLink rel) :=
  inferInstanceAs (Decidable (_ → ∀ _ ∈ _, _))

/-- A table column without a placeholder in its name. -/
def PlainHeader (column : Element) : Prop :=
  ∀ name ∈ column.attr? "name", Placeholder.extract name = []

instance (column : Element) : Decidable (PlainHeader column) :=
  inferInstanceAs (Decidable (∀ _ ∈ _, _))

/-- A pass over a sheet that has been filled: no text, link or header of it has a placeholder, and
its rows and cells are inside the sheet. -/
structure Pass.Filled (p : Pass) : Prop where
  texts : ∀ row ∈ sourceRows p.sheet.doc.root, PlainRow p.strings row
  links : ∀ rel ∈ p.sheetLinks, PlainLink rel
  headers : ∀ t ∈ p.tables, ∀ column ∈ t.columns, PlainHeader column
  inside : ∀ row ∈ sourceRows p.sheet.doc.root, RowInside row

instance (p : Pass) : Decidable p.Filled :=
  decidable_of_iff
    ((∀ row ∈ sourceRows p.sheet.doc.root, PlainRow p.strings row) ∧
      (∀ rel ∈ p.sheetLinks, PlainLink rel) ∧
      (∀ t ∈ p.tables, ∀ column ∈ t.columns, PlainHeader column) ∧
      ∀ row ∈ sourceRows p.sheet.doc.root, RowInside row)
    ⟨fun h => ⟨h.1, h.2.1, h.2.2.1, h.2.2.2⟩, fun h => ⟨h.texts, h.links, h.headers, h.inside⟩⟩

variable (values : Substitutions)

/-- A text without placeholders is filled with nothing. -/
private theorem splice_of_plain {text : String} (h : Placeholder.extract text = []) :
    splice values text = text := by
  rw [splice, h]
  rfl

/-- A plain link is left as it is. -/
private theorem fillLink_of_plain {rel : Element} (h : PlainLink rel) :
    fillLink values rel = rel := by
  unfold fillLink
  split
  · rename_i htype
    split
    · rename_i target htarget
      have hfilled : fillTarget values target = target := by
        unfold fillTarget
        dsimp only
        rw [splice_of_plain values (h htype target htarget), if_pos rfl]
      rw [hfilled, Element.setAttr_of_attr? htarget]
    · rfl
  · rfl

/-- So is a plain header. -/
private theorem fillHeader_of_plain {column : Element} (h : PlainHeader column) :
    fillHeader values column = column := by
  unfold fillHeader
  split
  · rename_i name hname
    rw [splice_of_plain values (h name hname), Element.setAttr_of_attr? hname]
  · rfl

/-- So are the links of a sheet. -/
private theorem fillLinks_of_plain {sheet : Worksheet}
    (h : ∀ rels ∈ sheet.rels, ∀ rel ∈ rels.toList, PlainLink rel) :
    fillLinks values sheet = sheet := by
  obtain ⟨name, path, doc, rels⟩ := sheet
  cases rels with
  | none => rfl
  | some rels =>
    have hroot : rels.doc.root.mapNamed "Relationship" (fillLink values) = rels.doc.root := by
      refine (Element.mapNamed_congr _ _ (g := id) fun rel hrel hname => ?_).trans
        (Element.mapNamed_of_id _ _ fun _ => rfl)
      exact fillLink_of_plain values
        (h rels rfl rel (List.mem_filter.2 ⟨hrel, by simp [hname]⟩))
    simp only [fillLinks, Option.map_some, Relationships.mapRoot, hroot]

/-- And the columns of a table. -/
private theorem mapColumns_of_plain {t : Table} (h : ∀ column ∈ t.columns, PlainHeader column) :
    t.mapColumns (fillHeader values) = t := by
  have hroot : t.doc.root.mapChild "tableColumns" (·.mapNamed "tableColumn" (fillHeader values)) =
      t.doc.root := by
    refine (Element.mapChild_congr _ _ (g := id) fun cols hcols => ?_).trans
      (Element.mapChild_of_id _ _ fun _ => rfl)
    refine (Element.mapNamed_congr _ _ (g := id) fun column hcolumn hname => ?_).trans
      (Element.mapNamed_of_id _ _ fun _ => rfl)
    refine fillHeader_of_plain values (h column ?_)
    rw [Table.columns, hcols]
    exact List.mem_filter.2 ⟨hcolumn, by simp [hname]⟩
  rw [Table.mapColumns, hroot]

/-- A pass over a sheet that a pass has settled and in which nothing is left to fill. It changes
nothing but its own record of rows, and writes everything anew. -/
theorem run_of_filled {p : Pass} (hfresh : p.Fresh) (hcols : p.maxColsInserted = 0) (h : p.Filled)
    (hs : Settled p.sheet.doc.root) (options : FillOptions) (files : ImageFiles) :
    ∃ rows, p.run options files values = .ok (Pass.save { p with rows }) := by
  have hroot := placed_of_settled hs h.inside
  have hlinks : ∀ rels ∈ p.sheet.rels, ∀ rel ∈ rels.toList, PlainLink rel := by
    intro rels hrels rel hrel
    refine h.links rel ?_
    rw [Pass.sheetLinks, hrels]
    exact hrel
  have htables : p.tables.map (·.mapColumns (fillHeader values)) = p.tables :=
    (List.map_congr_left fun t ht => mapColumns_of_plain values (h.headers t ht)).trans
      (List.map_id _)
  refine ⟨p.rows ++ Pass.placedRows p.rowsInserted 0 (sourceRows p.sheet.doc.root),
    (Pass.run_of_plain h.texts options files values).trans ?_⟩
  -- With nothing to fill, the parts of the pass are given back one by one.
  obtain ⟨sheet, tables, drawing, strings, workbook, package, types, rows, rowsInserted,
    maxColsInserted, skipped⟩ := p
  obtain ⟨hrows, hinserted⟩ := hfresh
  dsimp only at hrows hinserted hcols hroot hlinks htables
  subst hrows hinserted hcols
  unfold Pass.finishSheet Pass.withoutRows Pass.givenFor Worksheet.mapRoot
  dsimp only
  rw [Array.toList_appendList, List.nil_append, hroot, htables, fillLinks_of_plain values hlinks]

end Fill

namespace Session

open Fill (Pass Settled settled_of_run run_of_filled)

variable {options : FillOptions} {files : ImageFiles} {values : Substitutions}

/-- What is read of a sheet after a pass is what the pass has left of it, if its part holds that. -/
private theorem sheet_after_pass {s next : Session} {selector : SheetSelector} {start q p : Pass}
    {report : Report} (hs : s.package.Writable)
    (hfill : s.fill options files selector values = (next, report))
    (hreport : report.failure = none) (hstart : s.startPass selector = .ok start)
    (hrun : start.run options files values = .ok q)
    (hheld : next.package.get? q.sheet.path = some q.sheet.doc.toBytes)
    (hread : next.startPass selector = .ok p) : p.sheet.doc = q.sheet.doc.tidy := by
  -- Both passes find the same sheet, and it holds what the first pass has written.
  obtain ⟨start', hstart', hpass⟩ := fill_eq_ok options files hfill hreport
  cases hstart.symm.trans hstart'
  have hwritable := (writable_startPass hs hstart).sheet
  have hpath := (Pass.linked_of_run hrun).choose_spec.choose_spec.choose_spec.choose_spec.2.2.1
  have hsheets := sheets_of_runPass options files hpass
  obtain ⟨info, sheet, tables, drawing, hinfo, hsheet, -, -, rfl⟩ := startPass_eq_ok hstart
  obtain ⟨info', sheet', tables', drawing', hinfo', hsheet', -, -, rfl⟩ := startPass_eq_ok hread
  have hfind : next.workbook.findSheet selector = s.workbook.findSheet selector := by
    unfold Workbook.findSheet Workbook.sheet? Workbook.sheetById?
    rw [hsheets]
  cases hinfo.symm.trans (hfind.symm.trans hinfo')
  have hsame : sheet'.path = q.sheet.path := by
    rw [hpath, (Worksheet.load_eq_ok hsheet').1, (Worksheet.load_eq_ok hsheet).1]
  have hdoc := Package.requireXml_of_get? hheld
    (Pass.writable_of_run ⟨rfl, rfl⟩ hrun hwritable)
  rw [← hsame, (Worksheet.load_eq_ok hsheet').2.1] at hdoc
  exact Except.ok.inj hdoc

/-- The same call twice. Where a call has succeeded, the part of the sheet holds what the pass made
of it, and nothing is left to fill, the second call succeeds and changes nothing: the shared strings
and the workbook with its names are as they were, and so is what is read of the sheet, its
relationships and its tables. -/
theorem second_pass_changes_nothing {package : Package} {first second third : Session}
    {selector : SheetSelector} {start q p : Pass} {report report' : Report}
    (hnames : package.UsesNames) (hopen : ofPackage package = .ok first)
    (hfill : first.fill options files selector values = (second, report))
    (hreport : report.failure = none) (hstart : first.startPass selector = .ok start)
    (hrun : start.run options files values = .ok q)
    (hheld : second.package.get? q.sheet.path = some q.sheet.doc.toBytes)
    (hpictures : second.package.PicturesUseNames) (hread : second.startPass selector = .ok p)
    (hfilled : p.Filled)
    (hagain : second.fill options files selector values = (third, report')) :
    report'.failure = none ∧ third.strings = second.strings ∧ third.workbook = second.workbook ∧
      third.package.get? second.workbook.path = second.package.get? second.workbook.path ∧
      ∃ p', third.startPass selector = .ok p' ∧ ReadsLike p p' := by
  -- The first pass leaves a sound session whose parts can be read.
  have hwritable := writable_of_fill hnames hopen hfill hreport hpictures
  obtain ⟨hsound, hstored, -⟩ := stored_of_fill (sound_ofPackage hnames hopen) hfill hreport
  obtain ⟨start', q', hstart', hrun', hsecond, hknown⟩ :=
    written_of_fill (stringsKnown_ofPackage hopen) hfill hreport
  rw [hstart] at hstart'
  cases hstart'
  rw [hrun] at hrun'
  cases hrun'
  have hfirst : first.package.Writable := by
    rw [(ofPackage_eq_ok.1 hopen).2.2.2]
    exact fun name d hread => hnames.writable hread
  -- A pass that begins has inserted nothing.
  have hfresh : start.Fresh ∧ p.Fresh ∧ p.maxColsInserted = 0 := by
    obtain ⟨_, _, _, _, -, -, -, -, rfl⟩ := startPass_eq_ok hstart
    obtain ⟨_, _, _, _, -, -, -, -, rfl⟩ := startPass_eq_ok hread
    exact ⟨⟨rfl, rfl⟩, ⟨rfl, rfl⟩, rfl⟩
  have hdoc := sheet_after_pass hfirst hfill hreport hstart hrun hheld hread
  have hsettled : Settled p.sheet.doc.root := hdoc ▸ (settled_of_run hfresh.1 hrun).tidy
  obtain ⟨rows, hrun₂⟩ := run_of_filled values hfresh.2.1 hfresh.2.2 hfilled hsettled options files
  have hreport' : report'.failure = none := by
    have := failure_of_run hknown hread hrun₂
    rwa [hagain] at this
  obtain ⟨-, hstored', -⟩ := stored_of_fill hsound hagain hreport'
  obtain ⟨p₂, q₂, hread₂, hrun₂', hthird, -⟩ := written_of_fill hknown hagain hreport'
  cases hread.symm.trans hread₂
  cases hrun₂.symm.trans hrun₂'
  -- The pass has only read what it writes, and so has the session.
  obtain ⟨package', hwritten, hrewritten⟩ :
      ∃ package', third = { second with package := package' } ∧
        second.package.Rewritten package' := by
    have hsaved := rewritten_save hread rows
    obtain ⟨_, _, _, _, -, -, -, -, rfl⟩ := startPass_eq_ok hread
    subst hsecond
    obtain ⟨package', heq, hrewritten⟩ := rewritten_written hsound hsaved
    exact ⟨package', hthird.trans heq, hrewritten⟩
  subst hwritten
  refine ⟨hreport', rfl, rfl, ?_, startPass_of_rewritten hread hwritable hrewritten ?_⟩
  · by_cases hpath : second.workbook.path = Package.contentTypesPart
    · rw [hpath, hstored.types]
      exact hstored'.types
    · rw [hstored.workbook hpath]
      exact hstored'.workbook hpath
  · rw [hdoc, Document.tidy, Document.tidy, Element.tidy_tidy]

/-- What a call makes of a session, if its pass succeeds. -/
private def after (s : Session) (q : Pass) : Session :=
  (s.during q).written q.workbook.rels q.types

/-- The links of a sheet that has one link, to a table. -/
private def tableLink (target : String) : Document :=
  { root := .ofChildren "Relationships" [] [workbookLink "t" "hyperlink" target] }

/-- A sheet with one cell, that lists the linked table. -/
private def linkedSheet (cell : Element) : Document :=
  { root := .ofChildren "worksheet" [] [
    .ofChildren "sheetData" [] [.ofChildren "row" [("r", "1")] [cell]],
    .ofChildren "tableParts" [] [{ name := "tablePart", attributes := [("r:id", "t")] }]] }

/-- The documents of a workbook whose sheet is in a part `file` and links a table, by a link that a
pass fills. -/
def linkedDocuments (file : String) (cell : Element) (tables : List String) :
    List (String × Document) :=
  [(Package.contentTypesPart, { root := { name := "Types" } }),
    ("xl/workbook.xml", { root := .ofChildren "workbook" [] [.ofChildren "sheets" [] [
      { name := "sheet", attributes := [("name", "Plan"), ("r:id", "plan")] }]] }),
    ("xl/_rels/workbook.xml.rels", { root := .ofChildren "Relationships" [] [
      workbookLink "plan" "worksheet" file,
      workbookLink "strings" "sharedStrings" "strings.xml"] }),
    ("xl/" ++ file, linkedSheet cell), ("xl/_rels/" ++ file ++ ".rels", tableLink "${x}.xml"),
    ("xl/strings.xml", { root := .ofChildren "sst" [] [.ofChildren "si" [] [.ofText "t" "${x}"]] })]
    ++ tables.map fun name => (name, { root := { name := "table" } })

/-- The pass over a sheet with these links and tables. -/
private def linkedPass (s : Session) (path : String) (doc rels : Document) (tables : List Table) :
    Pass where
  sheet := { name := "Plan", path, doc, rels := some ⟨PartPath.relationshipsOf path, rels⟩ }
  tables
  drawing := none
  strings := s.strings.table
  workbook := s.workbook
  package := s.package
  types := s.types

/-- Whether a session finds such a sheet in its package. -/
private def HoldsLinked (s : Session) (path : String) (doc rels : Document) (tables : List Table) :
    Prop :=
  (s.workbook.sheet? (.name "Plan")).map (fun info => (info.name, info.path)) =
      some ("Plan", path) ∧
    (∀ part ∈ (path, doc) :: (PartPath.relationshipsOf path, rels) ::
      tables.map (fun t => (t.path, t.doc)), s.package.get? part.1 = some part.2.toBytes ∧
        part.2.Writable ∧ part.2.tidy = part.2) ∧
    ((((doc.root.child? "tableParts").map (·.named "tablePart")).getD []).filterMap
      fun part => (part.attr? "r:id").bind (linkTarget? (rels.root.named "Relationship"))).map
        (PartPath.resolve path) = tables.map (·.path) ∧
    doc.root.child? "drawing" = none

private instance (s : Session) (path : String) (doc rels : Document) (tables : List Table) :
    Decidable (s.HoldsLinked path doc rels tables) := inferInstanceAs (Decidable (_ ∧ _))

/-- A session finds what the documents of its package hold. -/
private theorem holdsLinked_ofDocuments {documents : List (String × Document)} {path : String}
    {doc rels : Document} {tables : List Table}
    (hdocuments : ∀ part ∈ documents, part.2.Writable ∧ part.2.tidy = part.2)
    (hinfo : ((ofDocuments documents).workbook.sheet? (.name "Plan")).map
      (fun info => (info.name, info.path)) = some ("Plan", path))
    (hparts : ∀ part ∈ (path, doc) :: (PartPath.relationshipsOf path, rels) ::
      tables.map (fun t => (t.path, t.doc)), documents.lookup part.1 = some part.2)
    (htables : ((((doc.root.child? "tableParts").map (·.named "tablePart")).getD []).filterMap
      fun part => (part.attr? "r:id").bind (linkTarget? (rels.root.named "Relationship"))).map
        (PartPath.resolve path) = tables.map (·.path))
    (hdrawing : doc.root.child? "drawing" = none) :
    (ofDocuments documents).HoldsLinked path doc rels tables := by
  refine ⟨hinfo, fun part hpart => ?_, htables, hdrawing⟩
  obtain ⟨before, after, hsplit, -⟩ := List.lookup_eq_some_iff.1 (hparts part hpart)
  have hget : (ofDocuments documents).package.get? part.1 = some part.2.toBytes :=
    (Package.get?_ofDocuments documents part.1).trans (by rw [hparts part hpart]; rfl)
  exact ⟨hget, hdocuments part (by rw [hsplit]; simp)⟩

/-- In the sample, the pass reads the sheet, its links and tables. -/
private theorem startPass_linked {s : Session} {path : String} {doc rels : Document}
    {tables : List Table} (h : s.HoldsLinked path doc rels tables) :
    s.startPass (.name "Plan") = .ok (s.linkedPass path doc rels tables) := by
  obtain ⟨hinfo, hparts, htables, hdrawing⟩ := h
  obtain ⟨⟨name, sheetId, relId, infoPath⟩, hfound, heq⟩ := Option.map_eq_some_iff.1 hinfo
  cases heq
  exact startPass_of_get? (by rw [Workbook.findSheet, hfound]) hparts htables hdrawing

/-- A sheet with a table for each pass: the first is filled, and then the second is linked. -/
theorem second_pass_changes_nothing_sample :
    ∃ (first second third : Session) (p p' : Pass) (report report' : Report),
      ofPackage (.ofDocuments (linkedDocuments "plan.xml"
        (.ofChildren "c" [("r", "A1"), ("t", "s")] [.ofText "v" "0"])
        ["xl/${x}.xml", "xl/new.xml"])) = .ok first ∧
      first.fill {} (fun _ => none) (.name "Plan") [("x", .text "new")] = (second, report) ∧
      report.failure = none ∧ second.strings.table.toList = ["${x}", "new"] ∧
      second.startPass (.name "Plan") = .ok p ∧ p.Filled ∧
      second.fill {} (fun _ => none) (.name "Plan") [("x", .text "new")] = (third, report') ∧
      report'.failure = none ∧ third.strings = second.strings ∧
      third.startPass (.name "Plan") = .ok p' ∧ ReadsLike p p' := by
  have hdocuments : ∀ part ∈ linkedDocuments "plan.xml"
      (.ofChildren "c" [("r", "A1"), ("t", "s")] [.ofText "v" "0"]) ["xl/${x}.xml", "xl/new.xml"],
      part.2.Writable ∧ part.2.tidy = part.2 ∧ part.2.root.Named := by decide +kernel
  have hplain := fun part hpart => And.intro (hdocuments part hpart).1 (hdocuments part hpart).2.1
  have hopen := ofPackage_ofDocuments hplain (by decide +kernel) (by decide +kernel)
  have hnames := Package.usesNames_ofDocuments hdocuments
  generalize hfirst : ofDocuments (linkedDocuments "plan.xml"
    (.ofChildren "c" [("r", "A1"), ("t", "s")] [.ofText "v" "0"]) ["xl/${x}.xml", "xl/new.xml"]) =
    first at hopen
  have hholds : first.HoldsLinked "xl/plan.xml"
      (linkedSheet (.ofChildren "c" [("r", "A1"), ("t", "s")] [.ofText "v" "0"]))
      (tableLink "${x}.xml") [⟨"xl/${x}.xml", { root := { name := "table" } }⟩] := by
    rw [← hfirst]
    exact holdsLinked_ofDocuments hplain (by decide +kernel) (by decide +kernel)
      (by decide +kernel) (by decide +kernel)
  -- The first pass of the sample is evaluated, with all that the law asks for.
  obtain ⟨q, report, hrun, hq, hknown, hreport, hfill⟩ := fill_of_any {} (fun _ => none)
    [("x", .text "new")] (stringsKnown_ofPackage hopen) (startPass_linked hholds) (P := fun q =>
      q.sheet.path = "xl/plan.xml" ∧
      (first.after q).strings.table.toList = ["${x}", "new"] ∧
      (first.after q).HoldsLinked q.sheet.path q.sheet.doc (tableLink "new.xml")
        [⟨"xl/new.xml", { root := { name := "table" } }⟩] ∧
      ((first.after q).linkedPass q.sheet.path q.sheet.doc (tableLink "new.xml")
        [⟨"xl/new.xml", { root := { name := "table" } }⟩]).Filled ∧
      ∀ name ∈ (first.after q).package.names, Package.isPicture name = false) (by
    rw [← hfirst]
    decide +kernel)
  -- The second pass begins with the sheet that the first one has written.
  obtain ⟨hpath, htexts, hheld, hfilled, hnone⟩ := of_decide_eq_true hq
  have hstart := startPass_linked hheld
  obtain ⟨hreport', hstrings, -, -, p', hstart', hlike⟩ := second_pass_changes_nothing hnames hopen
    hfill hreport (startPass_linked hholds) hrun (hheld.2.1 _ List.mem_cons_self).1
    (fun name d hpicture hread => by
      rw [hnone name (Package.mem_names_of_requireXml hread)] at hpicture
      cases hpicture) hstart hfilled Prod.mk.eta.symm
  exact ⟨_, _, _, _, p', report, _, hopen, hfill, hreport, htexts, hstart, hfilled,
    Prod.mk.eta.symm, hreport', hstrings, hstart', hlike⟩

/-- A cell with a formula and its value. -/
private def calculated : Element :=
  .ofChildren "c" [("r", "A1")] [.ofText "f" "1", .ofText "v" "1"]

/-- It is not enough that the passes succeed and that nothing is left to fill. Where the first pass
reads its sheet as a table as well, through a link that it fills, it writes the table over the
sheet. The second pass reads the sheet as it was, and drops the value of its formula. -/
theorem table_in_place_of_sheet :
    ¬∀ (options : FillOptions) (files : ImageFiles) (package : Package)
        (first second third : Session) (selector : SheetSelector) (values : Substitutions)
        (report report' : Report) (p : Pass),
      package.UsesNames → ofPackage package = .ok first →
      first.fill options files selector values = (second, report) → report.failure = none →
      second.package.PicturesUseNames → second.startPass selector = .ok p → p.Filled →
      second.fill options files selector values = (third, report') → report'.failure = none →
      ∃ p', third.startPass selector = .ok p' ∧ ReadsLike p p' := by
  intro hall
  have hdocuments : ∀ part ∈ linkedDocuments "${x}.xml" calculated ["xl/new.xml"],
      part.2.Writable ∧ part.2.tidy = part.2 ∧ part.2.root.Named := by decide +kernel
  have hplain := fun part hpart => And.intro (hdocuments part hpart).1 (hdocuments part hpart).2.1
  have hopen := ofPackage_ofDocuments hplain (by decide +kernel) (by decide +kernel)
  have hnames := Package.usesNames_ofDocuments hdocuments
  generalize hfirst : ofDocuments (linkedDocuments "${x}.xml" calculated ["xl/new.xml"]) =
    first at hopen
  have hholds : first.HoldsLinked "xl/${x}.xml" (linkedSheet calculated) (tableLink "${x}.xml")
      [⟨"xl/${x}.xml", linkedSheet calculated⟩] := by
    rw [← hfirst]
    exact holdsLinked_ofDocuments hplain (by decide +kernel) (by decide +kernel)
      (by decide +kernel) (by decide +kernel)
  -- In both passes the table is written over the sheet.
  obtain ⟨q, report, -, hq, hknown, hreport, hfill⟩ := fill_of_any {} (fun _ => none)
    [("x", .text "new")] (stringsKnown_ofPackage hopen) (startPass_linked hholds) (P := fun q =>
      (first.after q).HoldsLinked "xl/${x}.xml" (linkedSheet calculated) (tableLink "new.xml")
        [⟨"xl/new.xml", { root := { name := "table" } }⟩] ∧
      ((first.after q).linkedPass "xl/${x}.xml" (linkedSheet calculated) (tableLink "new.xml")
        [⟨"xl/new.xml", { root := { name := "table" } }⟩]).Filled ∧
      (∀ name ∈ (first.after q).package.names, Package.isPicture name = false) ∧
      (((first.after q).linkedPass "xl/${x}.xml" (linkedSheet calculated) (tableLink "new.xml")
        [⟨"xl/new.xml", { root := { name := "table" } }⟩]).run {} (fun _ => none)
        [("x", .text "new")]).toOption.any fun q' =>
          ((first.after q).after q').package.get? "xl/${x}.xml" = some q'.sheet.doc.toBytes ∧
            q'.sheet.doc.Writable ∧ q'.sheet.doc.tidy ≠ linkedSheet calculated) (by
    rw [← hfirst]
    decide +kernel)
  obtain ⟨hheld, hfilled, hnone, hagain⟩ := of_decide_eq_true hq
  obtain ⟨q', report', -, hq', -, hreport', hfill'⟩ := fill_of_any {} (fun _ => none)
    [("x", .text "new")] hknown (startPass_linked hheld) hagain
  obtain ⟨hget, hwritable, hdiffer⟩ := of_decide_eq_true hq'
  -- The law says that the sheet reads as before, but the table in its place has changed.
  obtain ⟨p', hstart', hlike⟩ := hall _ _ _ _ _ _ _ _ _ _ _ hnames hopen hfill hreport
    (fun name d hpicture hread => by
      rw [hnone name (Package.mem_names_of_requireXml hread)] at hpicture
      cases hpicture) (startPass_linked hheld) hfilled hfill' hreport'
  obtain ⟨info, sheet, tables, drawing, -, hsheet, -, -, rfl⟩ := startPass_eq_ok hstart'
  have hread := (Worksheet.load_eq_ok hsheet).2.1
  rw [show sheet.path = "xl/${x}.xml" from hlike.path] at hread
  exact hdiffer ((Except.ok.inj ((Package.requireXml_of_get? hget hwritable).symm.trans
    hread)).trans hlike.doc)

end Session

end SheetTemplate
