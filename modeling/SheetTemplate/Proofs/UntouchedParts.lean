import SheetTemplate.Proofs.FreshParts
import SheetTemplate.Proofs.RewrittenParts

/-!
# Parts that a pass leaves alone

A pass writes the parts of its sheet, those that all sheets share, and pictures; it takes away the
part with the order of calculation. All other parts keep their bytes and their order, since pictures
and drawings get fresh names and new parts come last.

Numbers in names have 32 bits. A pass that finds the last of them taken stores its pictures under
the number zero, over any part that has it.

## Key results

- `Fill.Pass.stored_of_run`: what a pass adds to the package
- `untouched_parts`: what a call that succeeds leaves of the package, after any calls
-/

namespace SheetTemplate

open Text (max32)
open Xml (Element Node Document)
open Fill (Pass)

namespace Drawing

/-- The part of a picture has the next number. -/
theorem pictureFile_eq (package : Package) (picture : Image.Picture) :
    "xl/media/" ++ pictureFile package picture = "xl/media/image" ++
      toString (package.nextIndex "xl/media/image") ++ ("." ++ picture.format.extension) := by
  simp only [pictureFile, ← String.append_assoc]
  rfl

/-- A picture is stored under a fresh name as long as the last number is not taken. -/
theorem pictureFile_not_mem {package : Package} (picture : Image.Picture)
    (h : package.lastIndex "xl/media/image" < max32) :
    "xl/media/" ++ pictureFile package picture ∉ package.names := by
  rw [pictureFile_eq]
  exact Package.numbered_not_mem_names h (by simp [String.toList_append])

/-- The part of a picture takes the number after the largest. -/
theorem lastIndex_set_pictureFile {package : Package} (picture : Image.Picture)
    (h : package.lastIndex "xl/media/image" < max32) :
    (package.set ("xl/media/" ++ pictureFile package picture) picture.bytes).lastIndex
      "xl/media/image" = package.lastIndex "xl/media/image" + 1 := by
  rw [pictureFile_eq]
  exact Package.lastIndex_set_numbered h (by simp [String.toList_append]) _

/-- A drawing is begun under a fresh name as long as the last number is not taken. -/
theorem newFile_not_mem {package : Package}
    (h : package.lastIndex "xl/drawings/drawing" < max32) :
    "xl/drawings/" ++ newFile package ∉ package.names := by
  have hname : "xl/drawings/" ++ newFile package = "xl/drawings/drawing" ++
      toString (package.nextIndex "xl/drawings/drawing") ++ ".xml" := by
    simp only [newFile, ← String.append_assoc]
    rfl
  rw [hname]
  exact Package.numbered_not_mem_names h (by simp)

/-- Moving anchors neither adds nor removes any. -/
private theorem length_moveNodes (row rows : Nat) (sameLine : Bool) (limit : Nat)
    (nodes : List Node) : (moveNodes row rows sameLine limit nodes).length = nodes.length := by
  induction nodes generalizing limit with
  | nil => rfl
  | cons n nodes ih =>
    cases limit with
    | zero => rfl
    | succ limit =>
      unfold moveNodes
      split <;> rw [List.length_cons, List.length_cons, ih]

end Drawing

namespace Fill.Pass

/-! ### Where the parts of a sheet are -/

/-- The parts of a sheet that has a drawing: the sheet, its tables and the drawing, and the
relationships of the sheet and the drawing. -/
def ownParts (p : Pass) (drawing : Option Drawing) : List String :=
  p.sheet.path :: PartPath.relationshipsOf p.sheet.path :: p.tables.map (·.path) ++
    (drawing.map fun d => [d.path, PartPath.relationshipsOf d.path]).getD []

/-- The sheet and its tables are where they were at `before`, and so is the drawing, if there was
one. Relationships are beside the parts that they belong to. -/
structure Located (before p : Pass) : Prop where
  sheet : p.sheet.path = before.sheet.path
  rels : ∀ rels ∈ p.sheet.rels, rels.path = PartPath.relationshipsOf before.sheet.path
  tables : p.tables.map (·.path) ⊆ before.tables.map (·.path)
  drawing : before.drawing.isSome = true →
    p.drawing.map (·.path) = before.drawing.map (·.path)
  drawingRels : ∀ d ∈ p.drawing, d.rels.path = PartPath.relationshipsOf d.path

variable {before p p' : Pass}

/-- What a pass changes leaves its parts where they are. -/
private theorem located_of_change (hchange : Change p p') (h : Located before p) :
    Located before p' := by
  -- Only a new drawing, a picture and moved anchors touch one of the parts at all.
  cases hchange with
  | text => exact ⟨h.sheet, h.rels, h.tables, h.drawing, h.drawingRels⟩
  | shiftRight => exact ⟨h.sheet, h.rels, h.tables, h.drawing, h.drawingRels⟩
  | shiftDown shift =>
    refine ⟨h.sheet, h.rels, ?_, h.drawing, h.drawingRels⟩
    have hpaths : (p.tables.map shift.shiftTable).map (·.path) = p.tables.map (·.path) := by
      rw [List.map_map]
      exact List.map_congr_left fun t _ => path_shiftTable shift t
    exact fun path hpath => h.tables (hpaths ▸ hpath)
  | extendTables inside cell =>
    refine ⟨h.sheet, h.rels, fun path hpath => ?_, h.drawing, h.drawingRels⟩
    obtain ⟨t, ht, rfl⟩ := List.mem_map.1 hpath
    obtain ⟨⟨old, isParent⟩, hold, rfl⟩ := List.mem_map.1 ht
    refine h.tables (List.mem_map.2 ⟨old, (List.of_mem_zip hold).1, ?_⟩)
    dsimp only
    split
    · exact (path_extendTable cell old).symm
    · rfl
  -- A new drawing is linked from the relationships of the sheet, which are read or begun anew.
  | drawing hnone hsheet hcreate =>
    obtain ⟨rels, rels', id, hrels, hadd, rfl, rfl, -⟩ := Drawing.create_eq_ok hcreate
    obtain ⟨-, hpath, hfrom⟩ := Worksheet.withRels?_eq_some hsheet
    refine ⟨(congrArg Worksheet.path hpath).trans h.sheet, fun r hr => ?_, h.tables,
      fun hsome => ?_, fun d hd => ?_⟩
    · cases hr
      rw [(Relationships.toList_of_add hadd).1]
      rcases hfrom with hsame | ⟨-, hempty⟩
      · exact h.rels rels (hsame.symm.trans hrels)
      · rw [hrels] at hempty
        rw [Option.some.inj hempty, ← h.sheet]
        rfl
    · have hkept := h.drawing hsome
      rw [hnone, Option.map_none, eq_comm, Option.map_eq_none_iff] at hkept
      rw [hkept] at hsome
      cases hsome
    · cases hd
      rfl
  | picture picture col row extent hdrawing hlink =>
    obtain ⟨rels, hadd, rfl⟩ := Drawing.link_eq_ok hlink
    refine ⟨h.sheet, h.rels, h.tables, fun hsome => ?_, fun d hd => ?_⟩
    · rw [← h.drawing hsome, hdrawing]
      rfl
    · cases hd
      exact (Relationships.toList_of_add hadd).1.trans (h.drawingRels _ hdrawing)
  | skip => exact ⟨h.sheet, h.rels, h.tables, h.drawing, h.drawingRels⟩
  | rows => exact ⟨h.sheet, h.rels, h.tables, h.drawing, h.drawingRels⟩
  | moveAnchors =>
    refine ⟨h.sheet, h.rels, h.tables, fun hsome => ?_, fun d hd => ?_⟩
    · rw [← h.drawing hsome, Option.map_map]
      rfl
    · obtain ⟨old, hold, rfl⟩ := Option.mem_map.1 hd
      exact h.drawingRels old hold

/-- Finishing the sheet writes to the tables, at the same paths. -/
private theorem located_finishSheet (h : Located before p) (given : Given) :
    Located before (p.finishSheet given) := by
  refine ⟨h.sheet, fun rels hrels => ?_, ?_, h.drawing, h.drawingRels⟩
  · obtain ⟨old, hold, rfl⟩ := Option.mem_map.1 hrels
    exact h.rels old hold
  · rw [finishSheet, List.map_map]
    exact h.tables

/-! ### What a pass stores -/

/-- Some pictures are behind all that there was in a package, each of them a new part. -/
structure Behind (before package : Package) (stored : List (String × ByteArray)) : Prop where
  entries : package.entries = before.entries ++ stored
  fresh : ∀ part ∈ stored, part.1 ∉ before.names
  lastIndex : package.lastIndex "xl/media/image" =
    before.lastIndex "xl/media/image" + stored.length

/-- What a pass has added to the package since it was at `before`: a picture for every node that its
drawing did not show then. They are new as long as there are numbers for them. -/
structure Stored (before p : Pass) (stored : List (String × ByteArray)) : Prop where
  package : p.package = before.package.store stored
  drawn : p.drawn.length = before.drawn.length + stored.length
  room : before.package.lastIndex "xl/media/image" + stored.length ≤ max32 →
    Behind before.package p.package stored
  drawing : before.drawing = none → before.package.lastIndex "xl/drawings/drawing" < max32 →
    ∀ d ∈ p.drawing, d.path ∉ before.package.names

variable {stored : List (String × ByteArray)}

/-- A change that stores nothing. -/
private theorem Stored.of_same (h : Stored before p stored) (hpackage : p'.package = p.package)
    (hdrawn : p'.drawn.length = p.drawn.length)
    (hdrawing : p'.drawing.map (·.path) = p.drawing.map (·.path)) : Stored before p' stored where
  package := hpackage.trans h.package
  drawn := hdrawn.trans h.drawn
  room := hpackage ▸ h.room
  drawing hnone hroom d' hd' := by
    rw [show p'.drawing = some d' from hd', Option.map_some] at hdrawing
    obtain ⟨d, hd, hpath⟩ := Option.map_eq_some_iff.1 hdrawing.symm
    exact hpath ▸ h.drawing hnone hroom d hd

/-- One more picture comes last, and is new if there is a number for it. -/
private theorem stored_of_picture {drawing linked : Drawing} {id : String} {types : ContentTypes}
    (picture : Image.Picture) (col row : Nat) (extent : Image.Extent)
    (h : Stored before p stored) (hdrawing : p.drawing = some drawing)
    (hlink : drawing.link (Drawing.pictureFile p.package picture) = .ok (linked, id)) :
    Stored before { p with
      package := p.package.set ("xl/media/" ++ Drawing.pictureFile p.package picture) picture.bytes
      types
      drawing := some (linked.addPicture col row extent id) }
      (stored ++ [("xl/media/" ++ Drawing.pictureFile p.package picture, picture.bytes)]) := by
  obtain ⟨rels, -, rfl⟩ := Drawing.link_eq_ok hlink
  refine ⟨?_, ?_, fun hroom => ?_, fun hnone hroom d hd => ?_⟩
  · rw [Package.store_append, ← h.package]
    rfl
  · have hdrawn := h.drawn
    rw [drawn, hdrawing] at hdrawn
    simp only [drawn, shownBy, Drawing.addPicture, Element.push, List.length_append,
      List.length_singleton] at hdrawn ⊢
    omega
  -- Room for this picture is room for those before it, so that its number is a new one.
  · rw [List.length_append, List.length_singleton] at hroom
    obtain ⟨hentries, hfresh, hlast⟩ := h.room (by omega)
    have hleft : p.package.lastIndex "xl/media/image" < max32 := by omega
    have hnew := Drawing.pictureFile_not_mem picture hleft
    refine ⟨?_, List.forall_mem_append.2 ⟨hfresh, List.forall_mem_singleton.2 fun hmem => ?_⟩, ?_⟩
    · rw [← List.append_assoc, ← hentries]
      exact Package.entries_set_of_not_mem hnew _
    · refine hnew ?_
      rw [Package.names, hentries, List.map_append]
      exact List.mem_append_left _ hmem
    · rw [List.length_append, List.length_singleton, ← Nat.add_assoc, ← hlast]
      exact Drawing.lastIndex_set_pictureFile picture hleft
  · cases hd
    exact h.drawing hnone hroom drawing hdrawing

/-- Only pictures add parts, and a drawing that is new has a path of its own. -/
private theorem stored_of_change (hchange : Change p p') (h : ∃ stored, Stored before p stored) :
    ∃ stored, Stored before p' stored := by
  obtain ⟨stored, h⟩ := h
  cases hchange with
  | text => exact ⟨_, h.of_same rfl rfl rfl⟩
  | shiftRight => exact ⟨_, h.of_same rfl rfl rfl⟩
  | shiftDown => exact ⟨_, h.of_same rfl rfl rfl⟩
  | extendTables => exact ⟨_, h.of_same rfl rfl rfl⟩
  | drawing hnone hsheet hcreate =>
    obtain ⟨rels, rels', id, -, -, rfl, -, -⟩ := Drawing.create_eq_ok hcreate
    have hempty := h.drawn
    rw [drawn, hnone] at hempty
    -- Nothing was drawn before, so no picture has taken a name either.
    have hlength : stored.length = 0 := (Nat.add_eq_zero_iff.1 hempty.symm).2
    have hsame : p.package = before.package := by
      rw [h.package, List.length_eq_zero_iff.1 hlength]
      rfl
    refine ⟨stored, h.package, hempty, h.room, fun _ hroom d hd => ?_⟩
    cases hd
    rw [← hsame] at hroom ⊢
    exact Drawing.newFile_not_mem hroom
  | picture picture col row extent hdrawing hlink =>
    exact ⟨_, stored_of_picture picture col row extent h hdrawing hlink⟩
  | skip => exact ⟨_, h.of_same rfl rfl rfl⟩
  | rows => exact ⟨_, h.of_same rfl rfl rfl⟩
  | moveAnchors row rows sameLine limit =>
    refine ⟨_, h.of_same rfl ?_ ?_⟩
    · unfold drawn
      cases p.drawing with
      | none => rfl
      | some d => exact Drawing.length_moveNodes ..
    · cases p.drawing <;> rfl

/-- The parts that a pass writes when it is done, in order. -/
def savedParts (p : Pass) : List (String × ByteArray) :=
  (p.sheet.path, p.sheet.doc.toBytes) ::
    (p.sheet.rels.map fun rels => (rels.path, rels.doc.toBytes)).toList ++
    p.tables.map (fun t => (t.path, t.doc.toBytes)) ++
    (p.drawing.map fun d =>
      [(d.path, d.doc.toBytes), (d.rels.path, d.rels.doc.toBytes)]).getD []

/-- Tables are saved one by one, which is one list of parts. -/
private theorem saveTables_eq_store (tables : List Table) (package : Package) :
    tables.foldl (fun package table => table.save package) package =
      package.store (tables.map fun t => (t.path, t.doc.toBytes)) := by
  rw [Package.store, List.foldl_map]
  rfl

/-- A pass writes its parts in this order. -/
theorem save_eq_store (p : Pass) : p.save.package = p.package.store p.savedParts := by
  have hsheet : p.sheet.save p.package = p.package.store ((p.sheet.path, p.sheet.doc.toBytes) ::
      (p.sheet.rels.map fun rels => (rels.path, rels.doc.toBytes)).toList) := by
    unfold Worksheet.save
    cases p.sheet.rels <;> rfl
  have htables : p.tables.foldl (fun package table => table.save package)
      (p.sheet.save p.package) = p.package.store ((p.sheet.path, p.sheet.doc.toBytes) ::
        (p.sheet.rels.map fun rels => (rels.path, rels.doc.toBytes)).toList ++
        p.tables.map fun t => (t.path, t.doc.toBytes)) := by
    rw [saveTables_eq_store, hsheet, Package.store_append]
  unfold save savedParts
  dsimp only
  rw [Package.store_append, ← htables]
  cases p.drawing <;> rfl

/-- A pass writes its own parts. -/
theorem Located.savedParts (h : Located before p) :
    ∀ part ∈ p.savedParts, part.1 ∈ before.ownParts p.drawing := by
  intro part hpart
  simp only [Pass.savedParts, ownParts, List.mem_append, List.mem_cons, Option.mem_toList,
    List.mem_map] at hpart ⊢
  -- A part is the sheet, its relationships, a table, the drawing or the relationships of that.
  rcases hpart with ((rfl | hrels) | ⟨t, ht, rfl⟩) | hdrawing
  · exact .inl (.inl h.sheet)
  · obtain ⟨rels, hmem, rfl⟩ := Option.mem_map.1 hrels
    exact .inl (.inr (.inl (h.rels rels hmem)))
  · exact .inl (.inr (.inr (List.mem_map.1 (h.tables (List.mem_map.2 ⟨t, ht, rfl⟩)))))
  · refine .inr ?_
    cases hd : p.drawing with
    | none =>
      rw [hd] at hdrawing
      cases hdrawing
    | some d =>
      rw [hd, Option.map_some, Option.getD_some, List.mem_cons, List.mem_singleton] at hdrawing
      rw [Option.map_some, Option.getD_some, List.mem_cons, List.mem_singleton,
        ← h.drawingRels d hd]
      exact hdrawing.imp (congrArg Prod.fst) (congrArg Prod.fst)

/-- A pass stores pictures, and then writes the parts of its sheet. -/
theorem stored_of_run {options : FillOptions} {files : ImageFiles} {values : Substitutions}
    {q : Pass} (hbefore : Located p p) (h : p.run options files values = .ok q) :
    ∃ (r : Pass) (stored : List (String × ByteArray)), q = r.save ∧ Stored p r stored ∧
      Located p r := by
  obtain ⟨r, hchanges, rfl⟩ := changes_of_run h
  have hstart : Located p p.withoutRows :=
    ⟨rfl, hbefore.rels, hbefore.tables, fun _ => rfl, hbefore.drawingRels⟩
  obtain ⟨stored, hstored⟩ := hchanges.keep (I := fun r => ∃ stored, Stored p r stored)
    (fun _ _ => stored_of_change) ⟨[], rfl, rfl, fun _ => ⟨(List.append_nil _).symm, by simp, rfl⟩,
      fun hnone _ d hd => absurd (hnone.symm.trans hd) (by simp)⟩
  have hlocated := hchanges.keep (I := Located p) (fun _ _ => located_of_change) hstart
  exact ⟨_, stored, rfl, hstored.of_same rfl rfl rfl, located_finishSheet hlocated _⟩

end Fill.Pass

/-! ### Sessions -/

namespace Session

/-- The parts that all sheets share, and the order of calculation. -/
def sharedParts (s : Session) : List String :=
  [s.strings.path, s.workbook.path, PartPath.relationshipsOf s.workbook.path,
    Package.contentTypesPart] ++ (s.workbook.linked? "calcChain").toList

/-- Whether a part is none of those that a pass from `p` to `q` may write or take away. -/
def isUntouched (s : Session) (p q : Pass) (name : String) : Bool :=
  !(p.ownParts q.drawing ++ s.sharedParts).contains name

/-- The package that is written back to. -/
private def withoutChain (s : Session) : Package :=
  match s.workbook.linked? "calcChain" with
  | some chain => (s.strings.write s.package).remove chain
  | none => s.strings.write s.package

/-- The workbook, its relationships and the content types are written last. -/
private theorem package_written (s : Session) (types : ContentTypes) :
    ∃ parts, (s.written s.workbook.rels types).package = s.withoutChain.store parts ∧
      parts.map Prod.fst = [s.workbook.path, s.workbook.rels.path, Package.contentTypesPart] := by
  have hself : ({ s.workbook with rels := s.workbook.rels } : Workbook) = s.workbook := rfl
  unfold written withoutChain
  rw [hself]
  unfold Workbook.dropCalcChain
  cases s.workbook.linked? "calcChain" <;> exact ⟨[(_, _), (_, _), (_, _)], rfl, rfl⟩

/-- Writing the shared strings stores at most the one part. -/
private theorem write_eq_store (strings : SharedStrings) (package : Package) :
    ∃ parts, strings.write package = package.store parts ∧
      ∀ part ∈ parts, part.1 = strings.path := by
  unfold SharedStrings.write
  split
  · exact ⟨[(strings.path, strings.document.toBytes)], rfl, by simp⟩
  · exact ⟨[], rfl, by simp⟩

/-- What is written at the end concerns the shared parts only. -/
private theorem filter_written {s : Session} (types : ContentTypes) {keep : String → Bool}
    (hrels : s.workbook.rels.path = PartPath.relationshipsOf s.workbook.path)
    (hkeep : ∀ name ∈ s.sharedParts, keep name = false) :
    (s.written s.workbook.rels types).package.entries.filter (keep ·.1) =
      s.package.entries.filter (keep ·.1) := by
  simp only [sharedParts, List.forall_mem_append, List.forall_mem_cons, Option.mem_toList] at hkeep
  obtain ⟨⟨hstrings, hworkbook, hworkbookRels, htypes, -⟩, hchain⟩ := hkeep
  obtain ⟨parts, hwritten, hparts⟩ := package_written s types
  obtain ⟨texts, htexts, hpath⟩ := write_eq_store s.strings s.package
  have hwrite : (s.strings.write s.package).entries.filter (keep ·.1) =
      s.package.entries.filter (keep ·.1) := by
    rw [htexts]
    exact Package.filter_store_of_not _ fun part hpart => hpath part hpart ▸ hstrings
  rw [hwritten, Package.filter_store_of_not]
  · unfold withoutChain
    -- The order of calculation is removed before, if there is one, and it is shared too.
    cases hlinked : s.workbook.linked? "calcChain" with
    | none => exact hwrite
    | some chain => exact (Package.filter_remove_of_not (hchain chain hlinked) _).trans hwrite
  · intro part hpart
    have hname := List.mem_map_of_mem (f := Prod.fst) hpart
    simp only [hparts, List.mem_cons, List.not_mem_nil, or_false] at hname
    -- Each of the three parts is shared.
    rcases hname with h | h | h
    · exact h ▸ hworkbook
    · exact (h.trans hrels) ▸ hworkbookRels
    · exact h ▸ htypes

/-- Whether a part outlives the order of calculation. -/
def survives (s : Session) (name : String) : Bool := s.workbook.linked? "calcChain" != some name

/-- The names keep their order but for the part that is removed, and new names come last. -/
private theorem names_written {s : Session} {before : Package}
    (hstored : ∃ parts, s.package = before.store parts) (types : ContentTypes) :
    ∃ added, (s.written s.workbook.rels types).package.names =
        before.names.filter s.survives ++ added ∧ added.Nodup ∧
      ∀ name ∈ added, name ∉ before.names.filter s.survives := by
  obtain ⟨stored, hstored⟩ := hstored
  obtain ⟨parts, hwritten, -⟩ := package_written s types
  obtain ⟨texts, htexts, -⟩ := write_eq_store s.strings s.package
  obtain ⟨first, hfirst, hfirstNodup, hfirstNew⟩ := Package.names_store before (stored ++ texts)
  obtain ⟨last, hlast, hlastNodup, hlastNew⟩ := Package.names_store s.withoutChain parts
  -- First the parts that are stored before the removal, then those after it.
  have hwithout : s.withoutChain.names = (before.names ++ first).filter s.survives := by
    rw [← hfirst, Package.store_append, ← hstored, ← htexts]
    unfold withoutChain survives
    cases s.workbook.linked? "calcChain" with
    | none => exact (List.filter_eq_self.2 fun _ _ => rfl).symm
    | some chain =>
      rw [Package.names_remove]
      refine List.filter_congr fun name _ => ?_
      rw [Bool.eq_iff_iff, bne_iff_ne, bne_iff_ne, ne_eq, ne_eq, Option.some_inj, eq_comm]
  rw [List.filter_append] at hwithout
  rw [hwritten, hlast, hwithout, List.append_assoc]
  refine ⟨_, rfl, List.nodup_append.2 ⟨hfirstNodup.filter _, hlastNodup, ?_⟩, ?_⟩
  -- A new name is none of the old ones, and the later ones are none of the earlier ones.
  · rintro name hname _ hother rfl
    exact hlastNew name hother (hwithout ▸ List.mem_append_right _ hname)
  · intro name hname hmem
    rcases List.mem_append.1 hname with hname | hname
    · exact hfirstNew name (List.mem_filter.1 hname).1 (List.mem_filter.1 hmem).1
    · exact hlastNew name hname (hwithout ▸ List.mem_append_left _ hmem)

variable {options : FillOptions} {files : ImageFiles} {values : Substitutions}

/-- A pass starts with parts that are where they belong. -/
theorem located_startPass {s : Session} {selector : SheetSelector} {p : Pass}
    (h : s.startPass selector = .ok p) : Pass.Located p p := by
  obtain ⟨info, sheet, tables, drawing, -, hsheet, -, hdrawing, rfl⟩ := startPass_eq_ok h
  refine ⟨rfl, fun rels hrels => ?_, List.Subset.refl _, fun _ => rfl, fun d hd => ?_⟩
  · exact (Relationships.load?_eq_some.1 (Worksheet.load?_rels hsheet hrels)).1
  · cases hd
    exact (Drawing.load?_eq_some hdrawing).2.1

/-- After any calls, shared strings that are missing have no texts, and the workbook has its
relationships beside it. -/
theorem known_fillCalls {package : Package} {first : Session}
    (hopen : ofPackage package = .ok first) (options : FillOptions) (files : ImageFiles)
    (calls : List FillCall) :
    (first.fillCalls options files calls).1.StringsKnown ∧
      (first.fillCalls options files calls).1.workbook.rels.path =
        PartPath.relationshipsOf (first.fillCalls options files calls).1.workbook.path := by
  refine fillCalls_keep options files
    (I := fun s => s.StringsKnown ∧
      s.workbook.rels.path = PartPath.relationshipsOf s.workbook.path)
    (fun s next selector values report hs h hreport => ?_) ⟨stringsKnown_ofPackage hopen, ?_⟩ calls
  -- A pass that succeeds writes what it has changed, and a failed one leaves the session as it is.
  · obtain ⟨p, q, hstart, hrun, rfl, hknown⟩ := written_of_fill hs.1 h hreport
    obtain ⟨hpath, hrels⟩ := Pass.workbook_of_run hrun
    obtain ⟨_, _, _, _, -, -, -, -, rfl⟩ := startPass_eq_ok hstart
    have hpaths := paths_dropCalcChain { q.workbook with rels := q.workbook.rels }
      ((s.during q).strings.write (s.during q).package) q.types
    refine ⟨hknown, hpaths.2.trans (Eq.trans ?_ (congrArg _ hpaths.1.symm))⟩
    show q.workbook.rels.path = PartPath.relationshipsOf q.workbook.path
    rw [hpath, hrels]
    exact hs.2
  · exact (Workbook.load_eq_ok.1 (ofPackage_eq_ok.1 hopen).1).2.2.1

/-- A pass changes neither where the shared parts are nor which part has the order of
calculation. -/
theorem shared_during {s : Session} {selector : SheetSelector} {p q : Pass}
    (hstart : s.startPass selector = .ok p) (hrun : p.run options files values = .ok q) :
    (s.during q).workbook.rels.path = s.workbook.rels.path ∧
      (s.during q).workbook.path = s.workbook.path ∧
      (s.during q).sharedParts = s.sharedParts ∧ (s.during q).survives = s.survives := by
  obtain ⟨hpath, hrels⟩ :
      q.workbook.path = s.workbook.path ∧ q.workbook.rels = s.workbook.rels := by
    obtain ⟨_, _, _, _, -, -, -, -, rfl⟩ := startPass_eq_ok hstart
    exact Pass.workbook_of_run hrun
  refine ⟨by simp [during, hrels], hpath, ?_, funext fun name => ?_⟩ <;>
    simp [during, sharedParts, survives, Workbook.linked?, hpath, hrels]

/-- The workbook of a session has its relationships beside it while a pass is written. -/
private theorem rels_during {s : Session} {selector : SheetSelector} {p q : Pass}
    (hrels : s.workbook.rels.path = PartPath.relationshipsOf s.workbook.path)
    (hstart : s.startPass selector = .ok p) (hrun : p.run options files values = .ok q) :
    (s.during q).workbook.rels.path =
      PartPath.relationshipsOf (s.during q).workbook.path := by
  obtain ⟨hduring, hpath, -⟩ := shared_during hstart hrun
  rw [hduring, hpath]
  exact hrels

/-- Of the parts that a pass may not write, what is in the package that a session writes is what the
pass left before it wrote its own. -/
private theorem filter_untouched {s : Session} {selector : SheetSelector} {p r : Pass}
    (hrels : s.workbook.rels.path = PartPath.relationshipsOf s.workbook.path)
    (hstart : s.startPass selector = .ok p) (hrun : p.run options files values = .ok r.save)
    (hlocated : Pass.Located p r) :
    ((s.during r.save).written r.save.workbook.rels r.save.types).package.entries.filter
      (s.isUntouched p r.save ·.1) = r.package.entries.filter (s.isUntouched p r.save ·.1) := by
  obtain ⟨-, -, hshared, -⟩ := shared_during hstart hrun
  refine (filter_written (s := s.during r.save) _ (rels_during hrels hstart hrun)
    fun name hname => ?_).trans ?_
  · rw [hshared] at hname
    simp [isUntouched, hname]
  · show r.save.package.entries.filter _ = _
    rw [Pass.save_eq_store]
    refine Package.filter_store_of_not _ fun part hpart => ?_
    have hown : part.1 ∈ p.ownParts r.save.drawing := hlocated.savedParts part hpart
    simp [isUntouched, hown]

/-- What a call that succeeds leaves of the package, after any calls. As long as there are numbers
for its pictures, the parts that are neither the sheet's own nor shared keep their bytes and their
order, and are followed by the pictures, under names that are new. Names keep their order too, but
for that of the order of calculation, and are followed by those that were not there. A drawing stays
where it is, and one that is begun is a new part if there is a number for it. -/
theorem untouched_parts {package : Package} {first s next : Session} {selector : SheetSelector}
    {report : Report} (hopen : ofPackage package = .ok first) (calls : List FillCall)
    (hs : (first.fillCalls options files calls).1 = s)
    (h : s.fill options files selector values = (next, report)) (hreport : report.failure = none) :
    ∃ p q : Pass, s.startPass selector = .ok p ∧ p.run options files values = .ok q ∧
      (s.package.lastIndex "xl/media/image" + (q.drawn.length - p.drawn.length) ≤ max32 →
        ∃ stored, next.package.entries.filter (s.isUntouched p q ·.1) =
            s.package.entries.filter (s.isUntouched p q ·.1) ++ stored ∧
          ∀ part ∈ stored, part.1 ∉ s.package.names) ∧
      (∃ added, next.package.names = s.package.names.filter s.survives ++ added ∧ added.Nodup ∧
        ∀ name ∈ added, name ∉ s.package.names.filter s.survives) ∧
      (s.package.names.Nodup → next.package.names.Nodup) ∧
      (p.drawing.isSome = true → q.drawing.map (·.path) = p.drawing.map (·.path)) ∧
      (p.drawing = none → s.package.lastIndex "xl/drawings/drawing" < max32 →
        ∀ d ∈ q.drawing, d.path ∉ s.package.names) := by
  subst hs
  obtain ⟨hknown, hrelsPath⟩ := known_fillCalls hopen options files calls
  generalize (first.fillCalls options files calls).1 = s at h hknown hrelsPath ⊢
  obtain ⟨p, q, hstart, hrun, rfl, -⟩ := written_of_fill hknown h hreport
  have hsurvives := (shared_during hstart hrun).2.2.2
  obtain ⟨r, stored, rfl, hstored, hlocated⟩ := Pass.stored_of_run (located_startPass hstart) hrun
  have hpackage : p.package = s.package := by
    obtain ⟨_, _, _, _, -, -, -, -, rfl⟩ := startPass_eq_ok hstart
    rfl
  -- The pass stores pictures and writes its own parts, and then the session those that are shared.
  obtain ⟨added, hnames, hnodup, hnew⟩ : ∃ added,
      ((s.during r.save).written r.save.workbook.rels r.save.types).package.names =
        s.package.names.filter s.survives ++ added ∧ added.Nodup ∧
      ∀ name ∈ added, name ∉ s.package.names.filter s.survives := by
    rw [← hsurvives]
    refine names_written (s := s.during r.save) ⟨stored ++ r.savedParts, ?_⟩ _
    rw [Package.store_append, ← hpackage, ← hstored.package]
    exact Pass.save_eq_store r
  refine ⟨p, r.save, hstart, hrun, fun hroom => ?_, ⟨added, hnames, hnodup, hnew⟩,
    fun hdistinct => ?_, hlocated.drawing, fun hnone hroom d hd => ?_⟩
  -- With room for all pictures the stored ones are new, and the rest is not touched.
  · rw [show r.save.drawn = r.drawn from rfl, hstored.drawn, Nat.add_sub_cancel_left,
      ← hpackage] at hroom
    obtain ⟨hentries, hfresh, -⟩ := hstored.room hroom
    refine ⟨stored.filter (s.isUntouched p r.save ·.1), ?_, fun part hpart =>
      hpackage ▸ hfresh part (List.mem_filter.1 hpart).1⟩
    rw [filter_untouched hrelsPath hstart hrun hlocated, hentries, List.filter_append, hpackage]
  · rw [hnames, List.nodup_append]
    exact ⟨hdistinct.filter _, hnodup, fun name hname other hother heq =>
      hnew other hother (heq ▸ hname)⟩
  · rw [← hpackage] at hroom ⊢
    exact hstored.drawing hnone hroom d hd

/-- The documents of a workbook that has a picture already. -/
private def paintedDocuments : List (String × Document) :=
  picturedDocuments "xl/sheets/plan.xml" "sheets/plan.xml" ++
    [("xl/media/image3.gif", { root := { name := "painted" } })]

/-- A picture that was there before another is stored. -/
theorem untouched_parts_sample :
    ∃ (first next : Session) (report : Report) (added : List String),
      ofPackage (.ofDocuments paintedDocuments) = .ok first ∧
      first.fill {} (fun _ => none) (.name "Plan") [("x", .image (.bytes pixel))] =
        (next, report) ∧ report.failure = none ∧
      ("xl/media/image3.gif", Document.toBytes { root := { name := "painted" } }) ∈
        next.package.entries ∧
      next.package.names = first.package.names ++ added ∧ next.package.names.Nodup := by
  have hdocuments : ∀ part ∈ paintedDocuments, part.2.Writable ∧ part.2.tidy = part.2 := by
    decide +kernel
  have hopen := ofPackage_ofDocuments hdocuments (by decide +kernel) (by decide +kernel)
  have hstart := startPass_ofDocuments hdocuments (.name "Plan") {
    name := "Plan", sheetId := none, relId := "plan", path := "xl/sheets/plan.xml" }
    (by decide +kernel) rfl rfl
  obtain ⟨q, report, hrun, hdrawn, -, hreport, hfill⟩ := fill_of_any {} (fun _ => none)
    [("x", .image (.bytes pixel))] (stringsKnown_ofPackage hopen) hstart
    (P := fun q => q.drawing.map (·.path) = some "xl/drawings/drawing1.xml" ∧
      q.drawn.length = 1) (by decide +kernel)
  -- The sheet has no drawing, and the pictures before it have small numbers.
  obtain ⟨p, q', hstart', hrun', hroom, ⟨added, hnames, -⟩, hdistinct, -⟩ :=
    untouched_parts hopen [] rfl hfill hreport
  cases hstart.symm.trans hstart'
  cases hrun.symm.trans hrun'
  obtain ⟨hdrawing, hone⟩ := of_decide_eq_true hdrawn
  obtain ⟨pictures, hentries, -⟩ := hroom (by rw [hone]; decide +kernel)
  refine ⟨_, _, report, added, hopen, hfill, hreport, ?_, ?_, hdistinct (by decide +kernel)⟩
  · obtain ⟨d, hd, hpath⟩ := Option.map_eq_some_iff.1 hdrawing
    have hthere : ("xl/media/image3.gif", Document.toBytes { root := { name := "painted" } }) ∈
        (ofDocuments paintedDocuments).package.entries :=
      List.mem_map.2 ⟨_, List.mem_append_right _ (List.mem_singleton_self _), rfl⟩
    refine (List.mem_filter.1 (hentries.symm ▸ List.mem_append_left pictures
      (List.mem_filter.2 ⟨hthere, ?_⟩))).1
    show isUntouched _ _ _ "xl/media/image3.gif" = true
    rw [isUntouched, Pass.ownParts, hd, Option.map_some, hpath]
    decide +kernel
  -- The names of the sample are evaluated.
  · rw [hnames]
    exact congrArg (· ++ added) (by decide +kernel)

/-- The documents of a workbook in which the last number of a picture is taken, and zero as well. -/
private def exhaustedDocuments : List (String × Document) :=
  picturedDocuments "xl/sheets/plan.xml" "sheets/plan.xml" ++
    [("xl/media/image4294967295.gif", { root := { name := "last" } }),
      ("xl/media/image0.gif", { root := { name := "first" } })]

/-- Parts that a pass may not write do not always keep their bytes: where the last number is taken,
the picture of the pass is stored over the one with the number zero. -/
theorem picture_over_another :
    ¬∀ (package : Package) (s next : Session) (selector : SheetSelector) (options : FillOptions)
      (files : ImageFiles) (values : Substitutions) (report : Report),
      ofPackage package = .ok s → s.fill options files selector values = (next, report) →
        report.failure = none →
        ∃ p q : Pass, s.startPass selector = .ok p ∧ p.run options files values = .ok q ∧
          ∀ part ∈ s.package.entries, s.isUntouched p q part.1 = true →
            part ∈ next.package.entries := by
  intro hall
  have hdocuments : ∀ part ∈ exhaustedDocuments, part.2.Writable ∧ part.2.tidy = part.2 := by
    decide +kernel
  have hopen := ofPackage_ofDocuments hdocuments (by decide +kernel) (by decide +kernel)
  have hstart := startPass_ofDocuments hdocuments (.name "Plan") {
    name := "Plan", sheetId := none, relId := "plan", path := "xl/sheets/plan.xml" }
    (by decide +kernel) rfl rfl
  obtain ⟨q, report, hrun, hq, -, hreport, hfill⟩ := fill_of_any {} (fun _ => none)
    [("x", .image (.bytes pixel))] (stringsKnown_ofPackage hopen) hstart
    (P := fun q => q.drawing.map (·.path) = some "xl/drawings/drawing1.xml" ∧
      (q.package.entries.filter (·.1 == "xl/media/image0.gif")).map (·.2.data) = [pixel.data])
    (by decide +kernel)
  -- The law says that the old picture is still there.
  obtain ⟨p, q', hstart', hrun', hkept⟩ := hall _ _ _ _ _ _ _ _ hopen hfill hreport
  cases hstart.symm.trans hstart'
  cases hrun.symm.trans hrun'
  obtain ⟨hdrawing, hover⟩ := of_decide_eq_true hq
  obtain ⟨d, hd, hpath⟩ := Option.map_eq_some_iff.1 hdrawing
  have hthere : ("xl/media/image0.gif", Document.toBytes { root := { name := "first" } }) ∈
      (ofDocuments exhaustedDocuments).package.entries :=
    List.mem_map.2 ⟨_, List.mem_append_right _ (List.mem_cons_of_mem _ (.head _)), rfl⟩
  have hmem := hkept _ hthere (by
    show isUntouched _ _ _ "xl/media/image0.gif" = true
    rw [isUntouched, Pass.ownParts, hd, Option.map_some, hpath]
    decide +kernel)
  -- The part is neither the pass's own nor shared, so it is as the pass left it: with other bytes.
  have hfilter : (((ofDocuments exhaustedDocuments).during q).written q.workbook.rels
      q.types).package.entries.filter (·.1 == "xl/media/image0.gif") =
      q.package.entries.filter (·.1 == "xl/media/image0.gif") :=
    filter_written (s := (ofDocuments exhaustedDocuments).during q) q.types
      (rels_during rfl hstart hrun) (by
        show ∀ name ∈ _, (name == "xl/media/image0.gif") = false
        rw [(shared_during hstart hrun).2.2.1]
        decide +kernel)
  have hleft := (List.mem_filter (p := (·.1 == "xl/media/image0.gif"))).2 ⟨hmem, rfl⟩
  rw [hfilter] at hleft
  have hbytes := List.mem_map_of_mem (f := fun part => part.2.data) hleft
  rw [hover, List.mem_singleton] at hbytes
  exact absurd hbytes (by decide +kernel)

end Session

end SheetTemplate
