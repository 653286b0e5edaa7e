import SheetTemplate.Proofs.AddedRelationships
import SheetTemplate.Proofs.WritablePackages

/-!
# Parts that are written anew

A pass that changes nothing still writes: the sheet, its relationships, tables and drawing, and all
that sheets share. Each part then holds the document that was read of it, so that it reads back as
before up to how texts are divided.

What all sheets share is in the package from the first pass on as the session has it, and the order
of calculation is gone. So writing it back again gives the same bytes.

## Key results

- `Package.Rewritten`: parts that are as they were, or hold what was read of them
- `rewritten_save`: what a pass writes of parts that it has only read
- `rewritten_written`: what is written back of a session that was written back before
-/

namespace SheetTemplate

open Fill (Pass)
open Xml (Document Element)

/-! ### Packages -/

namespace Package

/-- A package after a pass that changed nothing. A part is as it was, or holds the document that was
read of it, and a part that was not there has no relationships. -/
structure Rewritten (p p' : Package) : Prop where
  old : ∀ name bytes, p.get? name = some bytes → p'.get? name = some bytes ∨
    ∃ d, Document.parse bytes = .ok d ∧ p'.get? name = some d.toBytes
  new : ∀ name, p.get? name = none → p'.get? name = none ∨
    ∃ d : Document, p'.get? name = some d.toBytes ∧ d.Writable ∧ d.root.named "Relationship" = []

namespace Rewritten

variable {p p' : Package}

theorem refl (p : Package) : p.Rewritten p := ⟨fun _ _ h => .inl h, fun _ h => .inl h⟩

/-- A document may be written to where it was read. -/
theorem setXml (h : p.Rewritten p') {name : String} {d : Document}
    (hread : p.requireXml name = .ok d) : p.Rewritten (p'.setXml name d) := by
  obtain ⟨bytes, hget, hparse⟩ := requireXml_eq_ok.1 hread
  unfold Package.setXml
  refine ⟨fun other bytes' hother => ?_, fun other hnone => ?_⟩
  -- The part itself now holds what was read of it; all others are as they were.
  · by_cases hname : other = name
    · subst hname
      rw [hget] at hother
      cases hother
      exact .inr ⟨d, hparse, p'.get?_set_self other _⟩
    · rw [p'.get?_set_of_ne hname]
      exact h.old other bytes' hother
  · rw [p'.get?_set_of_ne fun hname => by rw [hname, hget] at hnone; cases hnone]
    exact h.new other hnone

/-- A part without relationships may be added. -/
theorem setNew (h : p.Rewritten p') {name : String} {d : Document} (hnone : p.get? name = none)
    (hd : d.Writable) (hlinks : d.root.named "Relationship" = []) :
    p.Rewritten (p'.setXml name d) := by
  unfold Package.setXml
  refine ⟨fun other bytes hother => ?_, fun other hother => ?_⟩
  · rw [p'.get?_set_of_ne fun hname => by rw [hname, hnone] at hother; cases hother]
    exact h.old other bytes hother
  · by_cases hname : other = name
    · subst hname
      exact .inr ⟨d, p'.get?_set_self other _, hd, hlinks⟩
    · rw [p'.get?_set_of_ne hname]
      exact h.new other hother

/-- A document that can be read can still be read, and it is the same up to how texts are
divided. -/
theorem requireXml (h : p.Rewritten p') (hp : p.Writable) {name : String} {d : Document}
    (hread : p.requireXml name = .ok d) :
    p'.requireXml name = .ok d ∨ p'.requireXml name = .ok d.tidy := by
  obtain ⟨bytes, hget, hparse⟩ := requireXml_eq_ok.1 hread
  rcases h.old name bytes hget with hsame | ⟨d', hparse', hget'⟩
  · exact .inl (requireXml_eq_ok.2 ⟨bytes, hsame, hparse⟩)
  · rw [hparse] at hparse'
    cases hparse'
    exact .inr (requireXml_of_get? hget' (hp name d hread))

/-- A part that is missing or can be read is so after it. -/
theorem xml? (h : p.Rewritten p') (hp : p.Writable) {name : String} {o : Option Document}
    (hread : p.xml? name = .ok o) : ∃ o', p'.xml? name = .ok o' := by
  -- A part is read if it was before, and a new one can be read.
  cases hget : p.get? name with
  | none =>
    rcases h.new name hget with hnone | ⟨d, hget', hd, -⟩
    · exact ⟨none, xml?_of_get?_eq_none hnone⟩
    · exact ⟨_, xml?_eq_some.2 (requireXml_of_get? hget' hd)⟩
  | some bytes =>
    rw [Package.xml?, hget] at hread
    obtain ⟨d, hparse, -⟩ := map_eq_ok.1 hread
    rcases h.requireXml hp (requireXml_eq_ok.2 ⟨bytes, hget, hparse⟩) with hsame | htidy
    · exact ⟨_, xml?_eq_some.2 hsame⟩
    · exact ⟨_, xml?_eq_some.2 htidy⟩

end Rewritten

end Package

/-! ### A pass -/

namespace Session

variable {s : Session} {selector : SheetSelector} {p : Pass}

/-- What a pass writes of a sheet that it has only read. -/
theorem rewritten_save (h : s.startPass selector = .ok p) (rows : Array Element) :
    s.package.Rewritten (Pass.save { p with rows }).package := by
  obtain ⟨info, sheet, tables, drawing, -, hsheet, htables, hdrawing, rfl⟩ := startPass_eq_ok h
  -- The sheet and its relationships are written first, then the tables.
  have hsaved : s.package.Rewritten (sheet.save s.package) := by
    have hdoc := (Package.Rewritten.refl s.package).setXml (Worksheet.load_eq_ok hsheet).2.1
    unfold Worksheet.save
    split
    · rename_i rels hrels
      obtain ⟨hpath, hread⟩ := Relationships.load?_eq_some.1 (Worksheet.load?_rels hsheet hrels)
      exact hdoc.setXml (hpath ▸ hread)
    · exact hdoc
  have hfold : ∀ (read : List Table) (package : Package), (∀ t ∈ read, t ∈ tables) →
      s.package.Rewritten package →
      s.package.Rewritten (read.foldl (fun package t => t.save package) package) := by
    intro read
    induction read with
    | nil => exact fun package _ hpackage => hpackage
    | cons t r ih =>
      intro package hread hpackage
      rw [List.foldl_cons]
      exact ih _ (fun t' ht' => hread t' (List.mem_cons_of_mem _ ht'))
        (hpackage.setXml (Table.requireXml_of_loadAll htables (hread t List.mem_cons_self)))
  have htabled := hfold tables _ (fun _ ht => ht) hsaved
  unfold Pass.save
  dsimp only
  -- A drawing that has no relationships gets an empty list of them.
  cases drawing with
  | none => exact htabled
  | some d =>
    obtain ⟨hdoc, -, hrels⟩ := Drawing.load?_eq_some hdrawing
    dsimp only [Drawing.save, Relationships.save]
    rcases hrels with hread | ⟨hnone, hempty⟩
    · exact (htabled.setXml hdoc).setXml hread
    · refine (htabled.setXml hdoc).setNew hnone ?_ ?_ <;> rw [hempty]
      · exact Relationships.writable_empty _
      · rfl

/-! ### What all sheets share -/

/-- Calculation is requested once. -/
private theorem requestCalculation_again (w : Workbook) :
    w.requestCalculation.requestCalculation = w.requestCalculation := by
  unfold Workbook.requestCalculation
  dsimp only
  rw [Element.mapChild_mapChild _ _ fun e => Element.name_setAttr e _ _]
  simp only [Element.setAttr_setAttr]

/-- Links of the type are gone. -/
private theorem ofType?_removeType (r : Relationships) (suffix : String) :
    (r.removeType suffix).ofType? suffix = none := by
  rw [Relationships.ofType?, List.find?_eq_none]
  intro rel hrel htype
  obtain ⟨hmem, hname⟩ := List.mem_filter.1 hrel
  rw [Relationships.removeType, Relationships.mapRoot, Element.elements_removeWhere] at hmem
  have hkept := (List.mem_filter.1 hmem).2
  rw [hname, htype] at hkept
  cases hkept

/-- What is left of a workbook has no order of calculation. -/
theorem exists_dropCalcChain_eq (w : Workbook) (package : Package) (types : ContentTypes) :
    ∃ bare : Workbook, bare.linked? "calcChain" = none ∧
      (w.dropCalcChain package types).1 = bare.requestCalculation := by
  unfold Workbook.dropCalcChain
  split
  · refine ⟨{ w with rels := w.rels.removeType "calcChain" }, ?_, rfl⟩
    rw [Workbook.linked?, ofType?_removeType]
    rfl
  · rename_i hnone
    exact ⟨w, hnone, rfl⟩

/-- The order of calculation is dropped once. -/
private theorem dropCalcChain_again (w : Workbook) (package package' : Package)
    (types types' : ContentTypes) :
    (w.dropCalcChain package types).1.dropCalcChain package' types' =
      ((w.dropCalcChain package types).1, package', types') := by
  obtain ⟨bare, hnone, heq⟩ := exists_dropCalcChain_eq w package types
  have hlinked : bare.requestCalculation.linked? "calcChain" = none := hnone
  rw [heq, Workbook.dropCalcChain, hlinked]
  dsimp only
  rw [requestCalculation_again]

/-- What the workbook, its relationships and the content types do not write over. -/
private theorem get?_save_of_ne {s : Session} (hs : s.Sound) (package : Package) {name : String}
    (hw : name ≠ s.workbook.path) (hr : name ≠ s.workbook.rels.path)
    (ht : name ≠ Package.contentTypesPart) :
    (s.types.save (s.workbook.save package)).get? name = package.get? name := by
  have hrels : s.workbook.rels.path ≠ Package.contentTypesPart :=
    hs.relsPath ▸ PartPath.relationshipsOf_ne_contentTypes _
  have hpath : s.workbook.path ≠ s.workbook.rels.path :=
    hs.relsPath ▸ (PartPath.relationshipsOf_ne _).symm
  exact (get?_saved hrels hpath package s.types).2.2.2 name hw hr ht

/-- The workbook, its relationships and the content types are written over whatever was there. -/
private theorem get?_save_eq {s : Session} (hs : s.Sound) (package package' : Package)
    {name : String}
    (h : name = s.workbook.path ∨ name = s.workbook.rels.path ∨ name = Package.contentTypesPart) :
    (s.types.save (s.workbook.save package)).get? name =
      (s.types.save (s.workbook.save package')).get? name := by
  -- The three parts have different names.
  have hrels : s.workbook.rels.path ≠ Package.contentTypesPart :=
    hs.relsPath ▸ PartPath.relationshipsOf_ne_contentTypes _
  have hpath : s.workbook.path ≠ s.workbook.rels.path :=
    hs.relsPath ▸ (PartPath.relationshipsOf_ne _).symm
  obtain ⟨hw, hr, ht, -⟩ := get?_saved hrels hpath package s.types
  obtain ⟨hw', hr', ht', -⟩ := get?_saved hrels hpath package' s.types
  by_cases htypes : name = Package.contentTypesPart
  · rw [htypes, ht, ht']
  · rcases h with rfl | rfl | rfl
    · rw [hw htypes, hw' htypes]
    · rw [hr, hr']
    · exact absurd rfl htypes

/-- The part of the order of calculation goes, all others stay. -/
private theorem get?_dropCalcChain (w : Workbook) (package : Package) (types : ContentTypes)
    (name : String) :
    (w.dropCalcChain package types).2.1.get? name = none ∨
      (w.dropCalcChain package types).2.1.get? name = package.get? name := by
  unfold Workbook.dropCalcChain
  split
  · rename_i chain _
    by_cases hname : name = chain
    · exact .inl (hname ▸ Package.get?_remove_self package name)
    · exact .inr (Package.get?_remove_of_ne package hname)
  · exact .inr rfl

/-- The shared strings that are written have no relationships. -/
private theorem named_document {s : SharedStrings} (hs : s.Sound) :
    s.document.root.named "Relationship" = [] := by
  rw [SharedStrings.document, Element.named_setAttr, Element.named_setAttr, Element.named_pushAll,
    Element.named, hs.bare, List.filter_nil, List.nil_append, List.filter_eq_nil_iff]
  intro e he hname
  have hsi := (SharedStrings.mem_entries hs.read he).2
  rw [hsi] at hname
  exact absurd hname (by decide)

/-- A session that was written back is written back again as it is. -/
theorem rewritten_written {s : Session} {rels : Relationships} {types : ContentTypes}
    (hs : (s.written rels types).Sound) {package : Package}
    (h : (s.written rels types).package.Rewritten package) :
    ∃ package', written { s.written rels types with package } (s.written rels types).workbook.rels
        (s.written rels types).types = { s.written rels types with package := package' } ∧
      (s.written rels types).package.Rewritten package' := by
  have hagain := dropCalcChain_again { s.workbook with rels } (s.strings.write s.package)
    (s.strings.write package) types (s.written rels types).types
  -- The shared strings are written first, and the parts after them go on top.
  have hpart : ∀ {package : Package} {name : String}, s.strings.isWritten = true →
      name = s.strings.path →
      (s.strings.write package).get? name = some s.strings.document.toBytes := by
    intro package name hwritten hname
    rw [SharedStrings.write, if_pos hwritten, Package.setXml, hname, Package.get?_set_self]
  have hother : ∀ {name : String}, ¬(s.strings.isWritten = true ∧ name = s.strings.path) →
      (s.strings.write package).get? name = package.get? name := by
    intro name hstrings
    unfold SharedStrings.write
    split
    · rename_i hwritten
      exact Package.get?_set_of_ne _ (fun hname => hstrings ⟨hwritten, hname⟩) _
    · rfl
  -- What is in the package was written over, or else it is what was there before the last parts.
  have hbefore : ∀ name, (s.written rels types).package.get? name =
      ((s.written rels types).types.save ((s.written rels types).workbook.save
        (s.strings.write package))).get? name ∨
      (((s.written rels types).types.save ((s.written rels types).workbook.save
        (s.strings.write package))).get? name = (s.strings.write package).get? name ∧
      ((s.written rels types).package.get? name = none ∨
        (s.written rels types).package.get? name =
          (s.strings.write s.package).get? name)) := by
    intro name
    by_cases hover : name = (s.written rels types).workbook.path ∨
        name = (s.written rels types).workbook.rels.path ∨ name = Package.contentTypesPart
    · exact .inl (get?_save_eq hs _ _ hover)
    · simp only [not_or] at hover
      refine .inr ⟨get?_save_of_ne hs _ hover.1 hover.2.1 hover.2.2, ?_⟩
      have hget : (s.written rels types).package.get? name = _ :=
        get?_save_of_ne hs _ hover.1 hover.2.1 hover.2.2
      rw [hget]
      exact get?_dropCalcChain _ _ _ name
  refine ⟨(s.written rels types).types.save ((s.written rels types).workbook.save
    (s.strings.write package)), ?_, fun name bytes hname => ?_, fun name hnone => ?_⟩
  · unfold written at hagain ⊢
    dsimp only at hagain ⊢
    rw [hagain]
  · rcases hbefore name with hsame | ⟨hlast, hfirst⟩
    · exact .inl (hsame.symm.trans hname)
    · rw [hlast]
      by_cases hstrings : s.strings.isWritten = true ∧ name = s.strings.path
      · -- The shared strings are written as they were, and they are not the part that was removed.
        refine .inl ?_
        rw [hname] at hfirst
        rw [hpart hstrings.1 hstrings.2] at hfirst ⊢
        exact (hfirst.resolve_left (Option.some_ne_none _)).symm
      · rw [hother hstrings]
        exact h.old name bytes hname
  · rcases hbefore name with hsame | ⟨hlast, -⟩
    · exact .inl (hsame.symm.trans hnone)
    · rw [hlast]
      by_cases hstrings : s.strings.isWritten = true ∧ name = s.strings.path
      · exact .inr ⟨_, hpart hstrings.1 hstrings.2, hs.strings.writable_document _,
          named_document hs.strings⟩
      · rw [hother hstrings]
        exact h.new name hnone

end Session

/-! ### Reading again -/

/-- The target of the link with an id. -/
def linkTarget? (links : List Element) (id : String) : Option String :=
  (links.find? (·.attr? "Id" == some id)).bind (·.attr? "Target")

/-- Links that read alike lead to the same target. -/
private theorem linkTarget?_congr {links links' : List Element}
    (h : links'.map Element.tidy = links.map Element.tidy) (id : String) :
    linkTarget? links' id = linkTarget? links id := by
  have htidy : ∀ links : List Element, linkTarget? (links.map Element.tidy) id =
      linkTarget? links id := by
    intro links
    unfold linkTarget?
    rw [List.find?_map, Option.bind_map]
    simp only [Function.comp_def, Element.attr?_tidy]
  rw [← htidy links', h, htidy]

/-- The relationships that a part lists; none if they cannot be read. -/
private def linksOf (rels : Option Relationships) : List Element :=
  (rels.map (·.toList)).getD []

/-- A target is looked for among the links that were read. -/
private theorem bind_target? (rels : Option Relationships) (id : String) :
    rels.bind (·.target? id) = linkTarget? (linksOf rels) id := by
  cases rels <;> rfl

/-- The links of a part are those that can be read of its document. -/
private theorem linksOf_load?_eq (p : Package) (path : String) :
    linksOf (Relationships.load? p path).toOption.join =
      (((p.get? path).bind fun bytes => (Document.parse bytes).toOption).map fun d =>
        d.root.named "Relationship").getD [] := by
  unfold Relationships.load? Package.xml?
  cases p.get? path with
  | none => rfl
  | some bytes =>
    dsimp only [Option.bind_some]
    cases Document.parse bytes with
    | error e => rfl
    | ok d => rfl

/-- Relationships that were written anew list the same links up to how texts are divided. -/
private theorem linksOf_load? {p p' : Package} (h : p.Rewritten p') (hp : p.Writable)
    (path : String) :
    (linksOf (Relationships.load? p' path).toOption.join).map Element.tidy =
      (linksOf (Relationships.load? p path).toOption.join).map Element.tidy := by
  rw [linksOf_load?_eq, linksOf_load?_eq]
  -- The part is new, or as it was, or it holds what was read of it.
  cases hget : p.get? path with
  | none =>
    rcases h.new path hget with hnone | ⟨d, hget', hd, hlinks⟩
    · rw [hnone]
    · rw [hget', Option.bind_some, Document.parse_toBytes hd]
      show (d.tidy.root.named "Relationship").map Element.tidy = []
      rw [Document.tidy, Element.named_tidy, hlinks]
      rfl
  | some bytes =>
    rcases h.old path bytes hget with hsame | ⟨d, hparse, hget'⟩
    · rw [hsame]
    · have hd := hp path d (Package.requireXml_eq_ok.2 ⟨bytes, hget, hparse⟩)
      rw [hget', Option.bind_some, Option.bind_some, Document.parse_toBytes hd, hparse]
      show (d.tidy.root.named "Relationship").map Element.tidy =
        (d.root.named "Relationship").map Element.tidy
      rw [Document.tidy, Element.named_tidy, List.map_map]
      exact List.map_congr_left fun e _ => e.tidy_tidy

/-- The tables that a sheet lists are read from the targets of its links. -/
private theorem loadAll_eq (package : Package) (sheet : Worksheet) :
    Table.loadAll package sheet =
      (((sheet.doc.root.child? "tableParts").map (·.named "tablePart")).getD [] |>.filterMap
        fun part => (part.attr? "r:id").bind (linkTarget? (linksOf sheet.rels))).mapM fun target =>
          (package.requireXml (PartPath.resolve sheet.path target)).map fun doc =>
            { path := PartPath.resolve sheet.path target, doc } := by
  unfold Table.loadAll
  cases hparts : sheet.doc.root.child? "tableParts" with
  | none => rfl
  | some parts =>
    cases hrels : sheet.rels with
    | some rels => rfl
    | none =>
      have hnone : linkTarget? (linksOf none) = fun _ => none := rfl
      simp [hnone]
      rfl

/-- Tables that were written anew are read again. -/
private theorem mapM_requireXml {p p' : Package} (h : p.Rewritten p') (hp : p.Writable)
    (path : String → String) {targets : List String} {tables : List Table}
    (hread : (targets.mapM fun target => (p.requireXml (path target)).map fun doc =>
      ({ path := path target, doc } : Table)) = .ok tables) :
    ∃ tables', (targets.mapM fun target => (p'.requireXml (path target)).map fun doc =>
        ({ path := path target, doc } : Table)) = .ok tables' ∧
      List.Forall₂ (fun t t' : Table => t'.path = t.path ∧ t'.doc.tidy = t.doc.tidy) tables
        tables' := by
  -- Table by table, from the same paths.
  induction targets generalizing tables with
  | nil =>
    cases hread
    exact ⟨[], rfl, .nil⟩
  | cons target targets ih =>
    rw [List.mapM_cons] at hread
    obtain ⟨first, hfirst, hread⟩ := bind_eq_ok.1 hread
    obtain ⟨rest, hrest, hread⟩ := bind_eq_ok.1 hread
    cases hread
    obtain ⟨doc, hdoc, rfl⟩ := map_eq_ok.1 hfirst
    obtain ⟨tables', htables', hall⟩ := ih hrest
    have hdoc' : ∃ d, p'.requireXml (path target) = .ok d ∧ d.tidy = doc.tidy := by
      rcases h.requireXml hp hdoc with hsame | htidy
      · exact ⟨doc, hsame, rfl⟩
      · exact ⟨doc.tidy, htidy, by rw [Document.tidy, Document.tidy, Element.tidy_tidy]⟩
    obtain ⟨d, hd, htidy⟩ := hdoc'
    refine ⟨⟨path target, d⟩ :: tables', ?_, .cons ⟨rfl, htidy⟩ hall⟩
    rw [List.mapM_cons, hd, htables']
    rfl

section

variable {p p' : Package} (h : p.Rewritten p') (hp : p.Writable) (sheet sheet' : Worksheet)
  (hpath : sheet'.path = sheet.path) (hdoc : sheet'.doc = sheet.doc)
  (hlinks : (linksOf sheet'.rels).map Element.tidy = (linksOf sheet.rels).map Element.tidy)

include h hp hpath hdoc hlinks

/-- The tables of a sheet are read again. -/
private theorem loadAll_of_rewritten {tables : List Table}
    (hread : Table.loadAll p sheet = .ok tables) :
    ∃ tables', Table.loadAll p' sheet' = .ok tables' ∧
      List.Forall₂ (fun t t' : Table => t'.path = t.path ∧ t'.doc.tidy = t.doc.tidy) tables
        tables' := by
  have htarget : linkTarget? (linksOf sheet'.rels) = linkTarget? (linksOf sheet.rels) :=
    funext (linkTarget?_congr hlinks)
  rw [loadAll_eq] at hread ⊢
  rw [hdoc, hpath, htarget]
  exact mapM_requireXml h hp _ hread

/-- The drawing of a sheet is read again. -/
private theorem load?_of_rewritten {drawing : Option Drawing}
    (hread : Drawing.load? p sheet = .ok drawing) : ∃ d, Drawing.load? p' sheet' = .ok d := by
  -- Both sheets lead to the same drawing.
  have htarget : (sheet'.drawingId?.bind fun id => sheet'.rels.bind (·.target? id)) =
      sheet.drawingId?.bind fun id => sheet.rels.bind (·.target? id) := by
    rw [Worksheet.drawingId?, Worksheet.drawingId?, hdoc]
    simp only [bind_target?, linkTarget?_congr hlinks]
  unfold Drawing.load? at hread ⊢
  rw [htarget]
  cases htarget : sheet.drawingId?.bind fun id => sheet.rels.bind (·.target? id) with
  | none => exact ⟨none, rfl⟩
  | some target =>
    rw [htarget] at hread
    dsimp only at hread ⊢
    rw [hpath]
    obtain ⟨doc, hread', hread⟩ := bind_eq_ok.1 hread
    obtain ⟨rels, hrels, -⟩ := bind_eq_ok.1 hread
    have hdoc' : ∃ d, p'.requireXml (PartPath.resolve sheet.path target) = .ok d := by
      rcases h.requireXml hp hread' with hsame | htidy
      · exact ⟨_, hsame⟩
      · exact ⟨_, htidy⟩
    obtain ⟨d, hd⟩ := hdoc'
    have hrels' : ∃ rels', Relationships.load? p'
        (PartPath.relationshipsOf (PartPath.resolve sheet.path target)) = .ok rels' := by
      obtain ⟨o, ho, -⟩ := map_eq_ok.1 hrels
      obtain ⟨o', ho'⟩ := h.xml? hp ho
      exact ⟨_, map_eq_ok.2 ⟨o', ho', rfl⟩⟩
    obtain ⟨rels', hrels'⟩ := hrels'
    rw [hd, hrels']
    exact ⟨_, rfl⟩

end

namespace Session

/-- What is read of a sheet again is what was read of it before. Its relationships and tables may
have texts that are divided otherwise. -/
structure ReadsLike (p p' : Pass) : Prop where
  path : p'.sheet.path = p.sheet.path
  doc : p'.sheet.doc = p.sheet.doc
  links : p'.sheetLinks.map Element.tidy = p.sheetLinks.map Element.tidy
  tables : List.Forall₂ (fun t t' : Table => t'.path = t.path ∧ t'.doc.tidy = t.doc.tidy) p.tables
    p'.tables

/-- A pass starts with what is read of the sheet. -/
theorem startPass_of_load {s : Session} {selector : SheetSelector} {info : SheetInfo}
    {sheet : Worksheet} {tables : List Table} {drawing : Option Drawing}
    (hinfo : s.workbook.findSheet selector = .ok info)
    (hsheet : Worksheet.load s.package info = .ok sheet)
    (htables : Table.loadAll s.package sheet = .ok tables)
    (hdrawing : Drawing.load? s.package sheet = .ok drawing) :
    s.startPass selector = .ok {
      sheet, tables, drawing, strings := s.strings.table, workbook := s.workbook
      package := s.package, types := s.types } := by
  refine bind_eq_ok.2 ⟨info, hinfo, ?_⟩
  exact bind_eq_ok.2 ⟨sheet, hsheet, bind_eq_ok.2 ⟨tables, htables,
    bind_eq_ok.2 ⟨drawing, hdrawing, rfl⟩⟩⟩

/-- Tables are read from the parts that hold them. -/
private theorem mapM_requireXml_of_get? {p : Package} (path : String → String)
    {targets : List String} {tables : List Table}
    (htables : targets.map path = tables.map (·.path))
    (hparts : ∀ t ∈ tables, p.get? t.path = some t.doc.toBytes ∧ t.doc.Writable ∧
      t.doc.tidy = t.doc) :
    (targets.mapM fun target => (p.requireXml (path target)).map fun doc =>
      ({ path := path target, doc } : Table)) = .ok tables := by
  -- Target by target: the part of each is there.
  induction targets generalizing tables with
  | nil =>
    rw [List.map_nil, eq_comm, List.map_eq_nil_iff] at htables
    rw [htables]
    rfl
  | cons target targets ih =>
    obtain ⟨t, rest, rfl, hpath, hrest⟩ := List.map_eq_cons_iff.1 htables.symm
    obtain ⟨⟨hget, hwritable, htidy⟩, hparts⟩ := List.forall_mem_cons.1 hparts
    have hdoc := Package.requireXml_of_get? hget hwritable
    rw [htidy, hpath] at hdoc
    rw [List.mapM_cons, hdoc, ih hrest.symm hparts, ← hpath]
    rfl

/-- A pass starts with the documents that the parts of the sheet hold. -/
theorem startPass_of_get? {s : Session} {selector : SheetSelector} {info : SheetInfo}
    {doc rels : Document} {tables : List Table}
    (hinfo : s.workbook.findSheet selector = .ok info)
    (hparts : ∀ part ∈ (info.path, doc) :: (PartPath.relationshipsOf info.path, rels) ::
      tables.map (fun t => (t.path, t.doc)), s.package.get? part.1 = some part.2.toBytes ∧
        part.2.Writable ∧ part.2.tidy = part.2)
    (htables : ((((doc.root.child? "tableParts").map (·.named "tablePart")).getD []).filterMap
      fun part => (part.attr? "r:id").bind (linkTarget? (rels.root.named "Relationship"))).map
        (PartPath.resolve info.path) = tables.map (·.path))
    (hdrawing : doc.root.child? "drawing" = none) :
    s.startPass selector = .ok {
      sheet := { name := info.name, path := info.path, doc
                 rels := some ⟨PartPath.relationshipsOf info.path, rels⟩ }
      tables, drawing := none, strings := s.strings.table, workbook := s.workbook
      package := s.package, types := s.types } := by
  simp only [List.forall_mem_cons, List.forall_mem_map] at hparts
  obtain ⟨⟨hdoc, hwritable, htidy⟩, ⟨hrels, hrelsWritable, hrelsTidy⟩, hparts⟩ := hparts
  -- The sheet and its links are read as they were written.
  have hread := Package.requireXml_of_get? hdoc hwritable
  have hlinks := Package.requireXml_of_get? hrels hrelsWritable
  rw [htidy] at hread
  rw [hrelsTidy] at hlinks
  have hload : Relationships.load? s.package (PartPath.relationshipsOf info.path) =
      .ok (some ⟨PartPath.relationshipsOf info.path, rels⟩) :=
    Relationships.load?_eq_some.2 ⟨rfl, hlinks⟩
  refine startPass_of_load hinfo (map_eq_ok.2 ⟨doc, hread, by rw [hload]; rfl⟩) ?_ ?_
  · rw [loadAll_eq]
    exact mapM_requireXml_of_get? _ htables hparts
  · rw [Drawing.load?, Worksheet.drawingId?, hdrawing]
    rfl

/-- A sheet without relationships starts with neither tables nor a drawing. -/
theorem startPass_unlinked {s : Session} (selector : SheetSelector) (info : SheetInfo)
    {doc : Document} (hinfo : s.workbook.findSheet selector = .ok info)
    (hdoc : s.package.get? info.path = some doc.toBytes) (hwritable : doc.Writable)
    (htidy : doc.tidy = doc)
    (hrels : s.package.get? (PartPath.relationshipsOf info.path) = none) :
    s.startPass selector = .ok {
      sheet := { name := info.name, path := info.path, doc, rels := none }
      tables := [], drawing := none, strings := s.strings.table, workbook := s.workbook
      package := s.package, types := s.types } := by
  have hread := Package.requireXml_of_get? hdoc hwritable
  rw [htidy] at hread
  have hnone : Relationships.load? s.package (PartPath.relationshipsOf info.path) = .ok none :=
    map_eq_ok.2 ⟨none, Package.xml?_of_get?_eq_none hrels, rfl⟩
  refine startPass_of_load hinfo (map_eq_ok.2 ⟨doc, hread, by rw [hnone]; rfl⟩) ?_ ?_
  -- Without links there are neither tables nor a drawing.
  · unfold Table.loadAll
    split
    · rename_i hsome
      cases hsome
    · rfl
  · rw [Drawing.load?]
    cases Worksheet.drawingId? _ <;> rfl

/-- In a package of documents, a sheet without relationships starts with neither tables nor a
drawing. -/
theorem startPass_ofDocuments {documents : List (String × Document)}
    (h : ∀ part ∈ documents, part.2.Writable ∧ part.2.tidy = part.2) (selector : SheetSelector)
    (info : SheetInfo) {doc : Document}
    (hinfo : (ofDocuments documents).workbook.findSheet selector = .ok info)
    (hdoc : documents.lookup info.path = some doc)
    (hrels : documents.lookup (PartPath.relationshipsOf info.path) = none) :
    (ofDocuments documents).startPass selector = .ok {
      sheet := { name := info.name, path := info.path, doc, rels := none }
      tables := [], drawing := none, strings := (ofDocuments documents).strings.table
      workbook := (ofDocuments documents).workbook, package := .ofDocuments documents
      types := (ofDocuments documents).types } := by
  obtain ⟨before, after, hsplit, -⟩ := List.lookup_eq_some_iff.1 hdoc
  obtain ⟨hwritable, htidy⟩ := h (info.path, doc) (by rw [hsplit]; simp)
  have hget := Package.get?_ofDocuments documents
  exact startPass_unlinked selector info hinfo ((hget _).trans (by rw [hdoc]; rfl)) hwritable htidy
    ((hget _).trans (by rw [hrels]; rfl))

/-- A sheet whose parts were written anew is read again, if its texts are not divided. -/
theorem startPass_of_rewritten {s : Session} {selector : SheetSelector} {p : Pass}
    {package : Package} (h : s.startPass selector = .ok p) (hp : s.package.Writable)
    (hr : s.package.Rewritten package) (htidy : p.sheet.doc.tidy = p.sheet.doc) :
    ∃ p', { s with package }.startPass selector = .ok p' ∧ ReadsLike p p' := by
  obtain ⟨info, sheet, tables, drawing, hinfo, hsheet, htables, hdrawing, rfl⟩ :=
    startPass_eq_ok h
  -- The sheet is not divided otherwise, so it is read as it was.
  obtain ⟨doc, hdoc, heq⟩ := map_eq_ok.1 hsheet
  have hdoc' : package.requireXml info.path = .ok doc := by
    rcases hr.requireXml hp hdoc with hsame | hread
    · exact hsame
    · rw [hread]
      subst heq
      exact congrArg Except.ok htidy
  let rels := (Relationships.load? package (PartPath.relationshipsOf info.path)).toOption.join
  have hlinks : (linksOf rels).map Element.tidy = (linksOf sheet.rels).map Element.tidy :=
    heq ▸ linksOf_load? hr hp (PartPath.relationshipsOf info.path)
  have hpath : info.path = sheet.path := heq ▸ rfl
  have hsame : doc = sheet.doc := heq ▸ rfl
  -- The sheet leads to the same tables and to the same drawing.
  obtain ⟨tables', htables', hall⟩ :=
    loadAll_of_rewritten hr hp sheet ⟨info.name, info.path, doc, rels⟩ hpath hsame hlinks htables
  obtain ⟨drawing', hdrawing'⟩ :=
    load?_of_rewritten hr hp sheet ⟨info.name, info.path, doc, rels⟩ hpath hsame hlinks hdrawing
  exact ⟨_, startPass_of_load hinfo (map_eq_ok.2 ⟨doc, hdoc', rfl⟩) htables' hdrawing', hpath,
    hsame, hlinks, hall⟩

end Session

end SheetTemplate
