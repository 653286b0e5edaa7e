import SheetTemplate.Proofs.ShownPictures

/-!
# Pictures that are found again

A session that is filled again and again finds the drawing of a sheet by what the sheet refers to.
So the pictures of all passes are in one drawing, and are shown in the package that is left.
-/

namespace SheetTemplate

open Xml (Document Element)
open Text (max32)
open Fill (Pass)

/-! ### What a pass has written -/

/-- A table is where a link of the sheet leads that lists it. -/
theorem Table.leadsTo_of_loadAll {package : Package} {sheet : Worksheet} {tables : List Table}
    (h : Table.loadAll package sheet = .ok tables) {t : Table} (ht : t ∈ tables) :
    ∃ id ∈ sheet.tableIds, ∃ rel, sheet.link? id = some rel ∧ LeadsTo sheet.path rel t.path := by
  -- Each table is read from the target of a link of the sheet.
  unfold Table.loadAll at h
  split at h
  · rename_i parts rels hparts hrels
    obtain ⟨target, htarget, hload⟩ := exists_left_of_mem (mapM_eq_ok.1 h) ht
    obtain ⟨part, hpart, hbound⟩ := List.mem_filterMap.1 htarget
    obtain ⟨id, hid, hlink⟩ := Option.bind_eq_some_iff.1 hbound
    obtain ⟨rel, hrel, htarget⟩ := Option.bind_eq_some_iff.1 hlink
    obtain ⟨doc, -, rfl⟩ := map_eq_ok.1 hload
    refine ⟨id, ?_, rel, ?_, ?_⟩
    · rw [Worksheet.tableIds, hparts]
      exact List.mem_filterMap.2 ⟨part, hpart, hid⟩
    · rw [Worksheet.link?, hrels]
      exact hrel
    · rw [LeadsTo, htarget]
      rfl
  · cases h
    cases ht

namespace Fill.Pass

variable {most : Nat} {shared : List String} {p r : Pass}

/-- What is written of a sheet stays if its tables and drawing are written to other parts. -/
private theorem get?_save_sheet
    (hrels : ∀ rels ∈ r.sheet.rels, rels.path = PartPath.relationshipsOf r.sheet.path)
    (htables : ∀ t ∈ r.tables, t.path ∉ r.sheet.parts)
    (hdrawing : ∀ d ∈ r.drawing, ∀ part ∈ [d.path, d.rels.path], part ∉ r.sheet.parts) :
    r.save.package.get? r.sheet.path = some r.sheet.doc.toBytes ∧
      ∀ rels ∈ r.sheet.rels, r.save.package.get? rels.path = some rels.doc.toBytes := by
  -- Tables and the drawing are written after the sheet and its relationships.
  have hlater : ∀ name ∈ r.sheet.parts,
      name ∉ (r.tables.map fun t => (t.path, t.doc.toBytes)).map Prod.fst ∧
      name ∉ ((r.drawing.map fun d =>
        [(d.path, d.doc.toBytes), (d.rels.path, d.rels.doc.toBytes)]).getD []).map Prod.fst := by
    intro name hname
    refine ⟨fun hmem => ?_, fun hmem => ?_⟩
    · rw [List.map_map] at hmem
      obtain ⟨t, ht, rfl⟩ := List.mem_map.1 hmem
      exact htables t ht hname
    -- Without a drawing nothing else is written.
    · cases hown : r.drawing with
      | none =>
        rw [hown] at hmem
        cases hmem
      | some d =>
        rw [hown, Option.map_some, Option.getD_some] at hmem
        exact hdrawing d hown name hmem hname
  rw [save_eq_store, savedParts]
  generalize (r.tables.map fun t => (t.path, t.doc.toBytes)) = tables at hlater ⊢
  refine ⟨?_, fun rels hmem => ?_⟩
  -- The sheet is not written again by its own relationships.
  · obtain ⟨htable, hdrawn⟩ := hlater r.sheet.path (by simp [Worksheet.parts])
    generalize (r.drawing.map _).getD [] = drawn at hdrawn ⊢
    have hown : r.sheet.path ∉ ((r.sheet.rels.map fun rels =>
        (rels.path, rels.doc.toBytes)).toList ++ tables ++ drawn).map Prod.fst := by
      rw [List.map_append, List.map_append, List.mem_append, List.mem_append]
      refine not_or.2 ⟨not_or.2 ⟨fun hmem => ?_, htable⟩, hdrawn⟩
      obtain ⟨part, hpart, hpath⟩ := List.mem_map.1 hmem
      obtain ⟨rels, hmem, rfl⟩ := Option.map_eq_some_iff.1 (Option.mem_toList.1 hpart)
      exact PartPath.relationshipsOf_ne _ ((hrels rels hmem).symm.trans hpath)
    exact Package.get?_store r.package [] _ hown
  · obtain ⟨htable, hdrawn⟩ := hlater rels.path (by simp [Worksheet.parts, hrels rels hmem])
    generalize (r.drawing.map _).getD [] = drawn at hdrawn ⊢
    have hown : rels.path ∉ (tables ++ drawn).map Prod.fst := by
      rw [List.map_append, List.mem_append]
      exact not_or.2 ⟨htable, hdrawn⟩
    rw [show r.sheet.rels = some rels from hmem]
    exact Package.get?_store r.package [(r.sheet.path, r.sheet.doc.toBytes)] _ hown

/-- What is written of a drawing stays, since nothing is written after it. -/
private theorem get?_save_drawn {d : Drawing} (hd : r.drawing = some d)
    (hrels : d.rels.path = PartPath.relationshipsOf d.path) :
    r.save.package.get? d.path = some d.doc.toBytes ∧
      r.save.package.get? d.rels.path = some d.rels.doc.toBytes := by
  rw [save_eq_store, savedParts, hd, Option.map_some, Option.getD_some]
  generalize _ :: Option.toList _ ++ _ = before
  have hfirst : d.path ∉ [(d.rels.path, d.rels.doc.toBytes)].map Prod.fst := by
    rw [List.map_singleton, List.mem_singleton, hrels]
    exact (PartPath.relationshipsOf_ne d.path).symm
  have hnone : d.rels.path ∉ ([] : List (String × ByteArray)).map Prod.fst := List.not_mem_nil
  have hlast := Package.get?_store r.package (before ++ [(d.path, d.doc.toBytes)])
    d.rels.doc.toBytes hnone
  rw [List.append_assoc] at hlast
  exact ⟨Package.get?_store r.package before _ hfirst, hlast⟩

/-- What a pass writes of the sheet and its drawing stays, since they are written to parts of their
own. -/
theorem get?_save_own (hlocated : Located p r) (hdraws : Illustrated most shared r.sheet r.drawing)
    (htables : ∀ t ∈ p.tables, t.path ∉ p.sheet.parts) :
    r.save.package.get? r.sheet.path = some r.sheet.doc.toBytes ∧
      (∀ rels ∈ r.sheet.rels, r.save.package.get? rels.path = some rels.doc.toBytes) ∧
      ∀ d ∈ r.drawing, r.save.package.get? d.path = some d.doc.toBytes ∧
        r.save.package.get? d.rels.path = some d.rels.doc.toBytes := by
  -- The parts of the sheet are those it began with.
  have hparts : r.sheet.parts = p.sheet.parts := by
    rw [Worksheet.parts, hlocated.sheet]
    rfl
  obtain ⟨hsheet, hrels⟩ := get?_save_sheet (r := r)
    (fun rels hmem => (hlocated.rels rels hmem).trans (by rw [hlocated.sheet]))
    (fun t ht => by
      obtain ⟨t', ht', heq⟩ := List.mem_map.1 (hlocated.tables (List.mem_map_of_mem ht))
      rw [hparts, ← heq]
      exact htables t' ht')
    (fun d hd part hpart hown => by
      rw [hlocated.drawingRels d hd] at hpart
      exact (hdraws.apart d hd part hpart).1 (List.mem_append_left _ hown))
  exact ⟨hsheet, hrels, fun d hd => get?_save_drawn hd (hlocated.drawingRels d hd)⟩

/-- While a pass fills rows, it stores nothing but pictures, and takes no relationships from the
sheet. -/
theorem kept_of_fill {options : FillOptions} {files : ImageFiles} {values : Substitutions}
    (h : fillSourceRows (p.givenFor options files values) 0 p.withoutRows
      (sourceRows p.sheet.doc.root) = .ok r) :
    (∀ name, Package.isPicture name = false → r.package.get? name = p.package.get? name) ∧
      (p.sheet.rels.isSome = true → r.sheet.rels.isSome = true) := by
  refine (changes_of_fillSourceRows h).keep
    (I := fun r => (∀ name, Package.isPicture name = false →
      r.package.get? name = p.package.get? name) ∧
      (p.sheet.rels.isSome = true → r.sheet.rels.isSome = true))
    (fun r r' hchange hr => ?_) ⟨fun _ _ => rfl, id⟩
  -- Only a drawing adds relationships, and only pictures are stored before the end.
  cases hchange with
  | drawing hnone hsheet hcreate =>
    obtain ⟨_, _, _, -, -, -, rfl, -⟩ := Drawing.create_eq_ok hcreate
    exact ⟨hr.1, fun _ => rfl⟩
  | picture image =>
    refine ⟨fun name hname => ?_, hr.2⟩
    dsimp only
    rw [Package.get?_set_of_ne _ fun heq => ?_]
    · exact hr.1 name hname
    · rw [heq, isPicture_pictureFile] at hname
      cases hname
  | _ => exact hr

/-- A sheet that is left without relationships had none, and nothing is written in their place. -/
theorem get?_of_no_rels {options : FillOptions} {files : ImageFiles} {values : Substitutions}
    {q : Pass} (h : p.run options files values = .ok q) (hlocated : Located p p)
    (hplace : p.sheet.InPlace) (hdraws : Illustrated most shared q.sheet q.drawing)
    (htables : ∀ t ∈ p.tables, t.path ∉ p.sheet.parts) (hnone : q.sheet.rels = none) :
    p.sheet.rels = none ∧ q.package.get? (PartPath.relationshipsOf p.sheet.path) =
      p.package.get? (PartPath.relationshipsOf p.sheet.path) := by
  have hfinal := located_of_run hlocated h
  obtain ⟨r, hfill, rfl⟩ := run_eq_ok h
  obtain ⟨hkept, hrels⟩ := kept_of_fill hfill
  generalize hfinished : r.finishSheet (p.givenFor options files values) = finished at *
  -- A drawing would be linked from the relationships.
  have hundrawn : finished.drawing = none := by
    cases hdrawing : finished.drawing with
    | none => rfl
    | some d =>
      obtain ⟨id, rel, -, hrel, -⟩ := hdraws.link d hdrawing
      rw [Worksheet.link?, hnone] at hrel
      cases hrel
  have hpicture : Package.isPicture (PartPath.relationshipsOf p.sheet.path) = false :=
    Bool.eq_false_iff.2 fun hpicture => PartPath.ne_of_begins
      (hplace.begins_parts _ (by simp [Worksheet.parts])) hpicture (by decide) (by decide) rfl
  refine ⟨?_, ?_⟩
  · have hgone : r.sheet.rels = none := by
      rw [← hfinished] at hnone
      exact Option.map_eq_none_iff.1 hnone
    rw [hgone] at hrels
    cases hold : p.sheet.rels with
    | none => rfl
    | some rels => exact absurd (hrels (by rw [hold]; rfl)) Bool.false_ne_true
  · have hpackage : finished.package = r.package := by rw [← hfinished]; rfl
    refine Eq.trans ?_ (hpackage ▸ hkept _ hpicture)
    rw [save_eq_store]
    refine Package.get?_store_of_not_mem fun hmem => ?_
    obtain ⟨part, hpart, hpath⟩ := List.mem_map.1 hmem
    -- Without relationships and a drawing, only the sheet and its tables are written.
    rw [savedParts, show finished.sheet.rels = none from hnone, hundrawn, Option.map_none,
      Option.toList_none, Option.map_none, Option.getD_none, List.append_nil] at hpart
    rcases List.mem_cons.1 hpart with rfl | hpart
    · exact PartPath.relationshipsOf_ne _ (hpath.symm.trans hfinal.sheet)
    · obtain ⟨t, ht, rfl⟩ := List.mem_map.1 hpart
      obtain ⟨t', ht', heq⟩ := List.mem_map.1 (hfinal.tables (List.mem_map_of_mem ht))
      have hsame : t.path = PartPath.relationshipsOf p.sheet.path := hpath
      exact htables t' ht' (by simp [Worksheet.parts, heq, hsame])

end Fill.Pass

/-! ### Reading again -/

/-- A sheet that was written is read with the same links. -/
private theorem Worksheet.exists_load {package : Package} {info : SheetInfo} {w : Worksheet}
    (hpath : w.path = info.path) (hget : package.get? w.path = some w.doc.toBytes)
    (hdoc : w.doc.Writable)
    (hrels : ∀ rels ∈ w.rels, rels.path = PartPath.relationshipsOf w.path ∧
      package.get? rels.path = some rels.doc.toBytes ∧ rels.doc.Writable)
    (hnone : w.rels = none →
      (Relationships.load? package (PartPath.relationshipsOf w.path)).toOption.join = none) :
    ∃ sheet, Worksheet.load package info = .ok sheet ∧ w.SameLinks sheet := by
  rw [hpath] at hget hrels hnone
  have hread := Package.requireXml_of_get? hget hdoc
  refine ⟨{ name := info.name, path := info.path, doc := w.doc.tidy
            rels := (Relationships.load? package
              (PartPath.relationshipsOf info.path)).toOption.join }, ?_,
    .of_tidy hpath.symm rfl ?_⟩
  · rw [Worksheet.load, hread]
    rfl
  -- Relationships are read as they were written, or they are still missing.
  · dsimp only
    cases hown : w.rels with
    | none => exact hnone hown
    | some rels =>
      obtain ⟨hrelsPath, hgetRels, hwritable⟩ := hrels rels hown
      have hload : Relationships.load? package (PartPath.relationshipsOf info.path) =
          .ok (some rels.tidied) :=
        Relationships.load?_eq_some.2 ⟨hrelsPath, hrelsPath ▸
          Package.requireXml_of_get? hgetRels hwritable⟩
      rw [hload]
      rfl

/-- A drawing is read from where the sheet refers to. -/
private theorem Drawing.load?_of_illustrated {most : Nat} {shared : List String} {package : Package}
    {sheet : Worksheet} {drawing : Option Drawing} (h : Illustrated most shared sheet drawing)
    (hread : ∀ d ∈ drawing, package.requireXml d.path = .ok d.doc ∧
      d.rels.path = PartPath.relationshipsOf d.path ∧
      package.requireXml d.rels.path = .ok d.rels.doc) :
    Drawing.load? package sheet = .ok drawing := by
  unfold Drawing.load?
  -- Without a drawing the sheet refers to none.
  cases drawing with
  | none =>
    rw [Worksheet.drawingId?_eq, h.undrawn rfl]
    rfl
  | some d =>
    obtain ⟨id, rel, hid, hrel, -, hlead⟩ := h.link d rfl
    obtain ⟨hdoc, hpath, hrels⟩ := hread d rfl
    obtain ⟨target, htarget, hresolve⟩ := Option.map_eq_some_iff.1 hlead
    obtain ⟨rels, hown, hget⟩ := Option.bind_eq_some_iff.1 hrel
    -- The reference leads to the link, and the link to the drawing.
    have hfound : (sheet.drawingId?.bind fun id => sheet.rels.bind (·.target? id)) =
        some target := by
      rw [hid, Option.bind_some, hown, Option.bind_some, Relationships.target?, hget,
        Option.bind_some, htarget]
    have hload : Relationships.load? package (PartPath.relationshipsOf d.path) =
        .ok (some d.rels) :=
      Relationships.load?_eq_some.2 ⟨hpath, hpath ▸ hrels⟩
    rw [hfound]
    dsimp only
    rw [hresolve]
    refine bind_eq_ok.2 ⟨_, hdoc, bind_eq_ok.2 ⟨_, hload, ?_⟩⟩
    rfl

/-- Tables are apart from the parts of the sheet and from pictures. -/
private theorem Illustrated.apart_tables {most : Nat} {shared : List String} {package : Package}
    {sheet : Worksheet} {drawing : Option Drawing} {tables : List Table}
    (h : Illustrated most shared sheet drawing) (hload : Table.loadAll package sheet = .ok tables) :
    ∀ t ∈ tables, t.path ∉ sheet.parts ∧ Package.isPicture t.path = false := by
  intro t ht
  obtain ⟨id, hid, rel, hrel, hlead⟩ := Table.leadsTo_of_loadAll hload ht
  exact (h.tables id hid rel hrel).2 t.path hlead

/-- What relationships are read depends on their part only. -/
private theorem Relationships.load?_congr {package package' : Package} {path : String}
    (h : package'.get? path = package.get? path) :
    Relationships.load? package' path = Relationships.load? package path := by
  rw [Relationships.load?, Relationships.load?, Package.xml?, Package.xml?, h]

/-- A sheet that a pass has written is read with its drawing, from a package that has kept what is
not shared. -/
private theorem Fill.Pass.exists_load_of_run {options : FillOptions} {files : ImageFiles}
    {values : Substitutions} {most : Nat} {shared : List String} {p q : Pass} {package : Package}
    {info : SheetInfo} (h : p.run options files values = .ok q) (hp : p.Fresh)
    (hwritable : p.Writable) (hlocated : Located p p) (hplace : p.sheet.InPlace)
    (hsheet : Worksheet.load p.package info = .ok p.sheet)
    (hdraws : Illustrated most shared q.sheet q.drawing)
    (htables : ∀ t ∈ p.tables, t.path ∉ p.sheet.parts)
    (hshared : ∀ part ∈ shared, part ∉ p.sheet.parts)
    (hget : ∀ name, name ∉ shared → package.get? name = q.package.get? name) :
    ∃ sheet, Worksheet.load package info = .ok sheet ∧
      Drawing.load? package sheet = .ok (q.drawing.map Drawing.tidied) ∧
      Illustrated most shared sheet (q.drawing.map Drawing.tidied) := by
  obtain ⟨hpath, -, hrels⟩ := Worksheet.load_eq_ok hsheet
  have hnone := get?_of_no_rels h hlocated hplace hdraws htables
  have hfinal := located_of_run hlocated h
  obtain ⟨r, rfl, hr⟩ := writable_parts_of_run hp hwritable h
  have hfinal' : Located p r :=
    ⟨hfinal.sheet, hfinal.rels, hfinal.tables, hfinal.drawing, hfinal.drawingRels⟩
  obtain ⟨hown, hownRels, hdrawn⟩ := get?_save_own hfinal' hdraws htables
  have hunshared : ∀ part ∈ p.sheet.parts, part ∉ shared := fun part hpart hmem =>
    hshared part hmem hpart
  have hrelsPath : ∀ rels ∈ r.sheet.rels, rels.path = PartPath.relationshipsOf r.sheet.path :=
    fun rels hmem => (hfinal'.rels rels hmem).trans (by rw [hfinal'.sheet])
  -- What is written at the end of the session leaves these parts alone.
  have hdocGet : package.get? r.sheet.path = some r.sheet.doc.toBytes := by
    rw [hget _ (hfinal'.sheet ▸ hunshared _ (by simp [Worksheet.parts]))]
    exact hown
  have hrelsGet : ∀ rels ∈ r.sheet.rels, package.get? rels.path = some rels.doc.toBytes := by
    intro rels hmem
    rw [hget]
    · exact hownRels rels hmem
    · rw [hrelsPath rels hmem, hfinal'.sheet]
      exact hunshared _ (by simp [Worksheet.parts])
  have hnoRels : r.sheet.rels = none → (Relationships.load? package
      (PartPath.relationshipsOf r.sheet.path)).toOption.join = none := by
    intro hno
    obtain ⟨hbefore, hkept⟩ := hnone hno
    rw [hfinal'.sheet, Relationships.load?_congr
      ((hget _ (hunshared _ (by simp [Worksheet.parts]))).trans hkept), ← hrels]
    exact hbefore
  obtain ⟨sheet, hload, hsame⟩ := Worksheet.exists_load (hfinal'.sheet.trans hpath) hdocGet hr.sheet
    (fun rels hmem => ⟨hrelsPath rels hmem, hrelsGet rels hmem, hr.rels rels hmem⟩) hnoRels
  have hagain : Illustrated most shared sheet (r.drawing.map Drawing.tidied) :=
    hdraws.of_sameLinks hsame (by rw [Option.map_map]; rfl)
  refine ⟨sheet, hload, Drawing.load?_of_illustrated hagain fun d hd => ?_, hagain⟩
  obtain ⟨old, hold, rfl⟩ := Option.map_eq_some_iff.1 hd
  obtain ⟨hdrawn, hdrawnRels⟩ := hdrawn old hold
  obtain ⟨hwritten, hwrittenRels⟩ := hr.drawing old hold
  have hbeside := hfinal'.drawingRels old hold
  have hoff : ∀ part ∈ old.parts, part ∉ shared := fun part hpart hmem =>
    (hdraws.apart old hold part hpart).1 (List.mem_append_right _ hmem)
  have hold₁ : package.get? old.path = some old.doc.toBytes :=
    (hget _ (hoff _ (by simp [Drawing.parts]))).trans hdrawn
  have hold₂ : package.get? old.rels.path = some old.rels.doc.toBytes :=
    (hget _ (hoff _ (by simp [Drawing.parts, hbeside]))).trans hdrawnRels
  exact ⟨Package.requireXml_of_get? hold₁ hwritten, hbeside,
    Package.requireXml_of_get? hold₂ hwrittenRels⟩

/-- A drawing that is read is where the sheet refers to. -/
private theorem Drawing.leadsTo_of_load? {package : Package} {sheet : Worksheet} {d : Drawing}
    (h : Drawing.load? package sheet = .ok (some d)) :
    ∃ id rel, sheet.drawingId? = some id ∧ sheet.link? id = some rel ∧
      LeadsTo sheet.path rel d.path := by
  -- A drawing is read only where both the reference and the link are there.
  unfold Drawing.load? at h
  split at h
  · cases h
  · rename_i target hfound
    obtain ⟨id, hid, hlink⟩ := Option.bind_eq_some_iff.1 hfound
    obtain ⟨rels, hrels, htarget⟩ := Option.bind_eq_some_iff.1 hlink
    obtain ⟨rel, hrel, htarget⟩ := Option.bind_eq_some_iff.1 htarget
    dsimp only at h
    obtain ⟨doc, -, h⟩ := bind_eq_ok.1 h
    obtain ⟨own, -, h⟩ := bind_eq_ok.1 h
    cases h
    refine ⟨id, rel, hid, ?_, ?_⟩
    · rw [Worksheet.link?, hrels]
      exact hrel
    · rw [LeadsTo, htarget]
      rfl

/-! ### Sessions -/

namespace Session

variable {options : FillOptions} {files : ImageFiles} {values : Substitutions} {s next : Session}

/-- What is written back leaves the parts that are not shared. -/
theorem get?_written (hrels : s.workbook.rels.path = PartPath.relationshipsOf s.workbook.path)
    {name : String} (h : name ∉ s.sharedParts) :
    (s.written s.workbook.rels s.types).package.get? name = s.package.get? name := by
  simp only [sharedParts, List.mem_append, List.mem_cons, List.not_mem_nil, or_false, not_or,
    Option.mem_toList] at h
  obtain ⟨⟨hstrings, hworkbook, hworkbookRels, htypes⟩, hchain⟩ := h
  have hpaths := paths_dropCalcChain { s.workbook with rels := s.workbook.rels }
    (s.strings.write s.package) s.types
  -- Strings, workbook and types are other parts, and so is the one that is removed.
  have hwrite : (s.strings.write s.package).get? name = s.package.get? name := by
    unfold SharedStrings.write
    split
    · exact Package.get?_set_of_ne _ hstrings _
    · rfl
  have hdropped : (Workbook.dropCalcChain { s.workbook with rels := s.workbook.rels }
      (s.strings.write s.package) s.types).2.1.get? name = s.package.get? name := by
    rw [← hwrite]
    unfold Workbook.dropCalcChain
    split
    · rename_i chain hlinked
      exact Package.get?_remove_of_ne _ fun heq => hchain (heq ▸ hlinked)
    · rfl
  refine Eq.trans ((get?_saved ?_ ?_ _ _).2.2.2 name ?_ ?_ htypes) hdropped
  · rw [hpaths.2, hrels]
    exact PartPath.relationshipsOf_ne_contentTypes _
  · rw [hpaths.1, hpaths.2, hrels]
    exact (PartPath.relationshipsOf_ne _).symm
  · rw [hpaths.1]
    exact hworkbook
  · rw [hpaths.2, hrels]
    exact hworkbookRels

/-- The order of calculation is dropped, and all that sheets share stays where it is. -/
theorem sharedParts_written : (s.written s.workbook.rels s.types).sharedParts ⊆ s.sharedParts := by
  have hpaths := paths_dropCalcChain { s.workbook with rels := s.workbook.rels }
    (s.strings.write s.package) s.types
  have hchain : (s.written s.workbook.rels s.types).workbook.linked? "calcChain" = none := by
    obtain ⟨bare, hnone, heq⟩ := exists_dropCalcChain_eq
      { s.workbook with rels := s.workbook.rels } (s.strings.write s.package) s.types
    exact (congrArg (Workbook.linked? · "calcChain") heq).trans hnone
  have hpath : (s.written s.workbook.rels s.types).workbook.path = s.workbook.path := hpaths.1
  rw [sharedParts, hchain, hpath, Option.toList_none, List.append_nil]
  exact List.subset_append_left ..

/-- A pass adds parts to the package and takes none away. -/
private theorem names_subset_of_run {p q : Pass} (hlocated : Pass.Located p p)
    (h : p.run options files values = .ok q) : p.package.names ⊆ q.package.names := by
  obtain ⟨r, stored, rfl, hstored, -⟩ := Pass.stored_of_run hlocated h
  obtain ⟨added, hadded, -⟩ := Package.names_store p.package (stored ++ r.savedParts)
  rw [Pass.save_eq_store, hstored.package, ← Package.store_append, hadded]
  exact List.subset_append_left ..

/-- Writing back leaves the numbers of pictures taken. -/
private theorem lastIndex_written
    (hrels : s.workbook.rels.path = PartPath.relationshipsOf s.workbook.path)
    (hshared : ∀ part ∈ s.sharedParts, Package.isPicture part = false) :
    s.package.lastIndex "xl/media/image" ≤
      (s.written s.workbook.rels s.types).package.lastIndex "xl/media/image" := by
  refine Package.lastIndex_le_of_kept fun name hname hnumber => ?_
  rw [Package.mem_names_iff, get?_written hrels fun hmem => ?_]
  · exact Package.mem_names_iff.1 hname
  · have hpicture := Package.isPicture_of_fileIndex? hnumber
    rw [hshared name hmem] at hpicture
    cases hpicture

/-- A session whose shared parts are known and among some names. -/
structure Steady (shared : List String) (s : Session) : Prop where
  sound : s.Sound
  known : s.StringsKnown
  within : s.sharedParts ⊆ shared

namespace Steady

variable {shared : List String} {selector : SheetSelector} {report : Report}

/-- Every successful call leaves such a session. -/
theorem fill (hs : s.Steady shared)
    (h : s.fill options files selector values = (next, report))
    (hreport : report.failure = none) : next.Steady shared := by
  obtain ⟨hsound, -, -⟩ := stored_of_fill hs.sound h hreport
  obtain ⟨p, q, hstart, hrun, rfl, hknown⟩ := written_of_fill hs.known h hreport
  obtain ⟨-, -, hshared, -⟩ := shared_during hstart hrun
  exact ⟨hsound, hknown, fun part hpart =>
    hs.within (hshared ▸ sharedParts_written (s := s.during q) hpart)⟩

/-- The numbers of pictures that were taken before a call are taken after it. -/
theorem lastIndex_fill (hs : s.Steady shared)
    (hshared : ∀ part ∈ shared, Package.isPicture part = false)
    (h : s.fill options files selector values = (next, report))
    (hreport : report.failure = none) :
    s.package.lastIndex "xl/media/image" ≤ next.package.lastIndex "xl/media/image" := by
  obtain ⟨p, q, hstart, hrun, rfl, -⟩ := written_of_fill hs.known h hreport
  obtain ⟨hrels, hpath, hsame, -⟩ := shared_during hstart hrun
  have hnames := names_subset_of_run (located_startPass hstart) hrun
  obtain ⟨_, _, _, _, -, -, -, -, rfl⟩ := startPass_eq_ok hstart
  refine (Package.lastIndex_mono hnames _).trans
    (lastIndex_written (s := s.during q) ?_ fun part hpart => ?_)
  · rw [hrels, hpath]
    exact hs.sound.relsPath
  · exact hshared part (hs.within (hsame ▸ hpart))

/-- So are those that were taken before any calls. -/
theorem lastIndex_fillCalls (hs : s.Steady shared)
    (hshared : ∀ part ∈ shared, Package.isPicture part = false) (calls : List FillCall) :
    s.package.lastIndex "xl/media/image" ≤
      (s.fillCalls options files calls).1.package.lastIndex "xl/media/image" := by
  refine (fillCalls_keep options files
    (I := fun t => t.Steady shared ∧
      s.package.lastIndex "xl/media/image" ≤ t.package.lastIndex "xl/media/image")
    (fun t next _ _ _ ht h hreport => ⟨ht.1.fill h hreport, ?_⟩) ⟨hs, Nat.le_refl _⟩ calls).2
  exact ht.2.trans (ht.1.lastIndex_fill hshared h hreport)

end Steady

/-! ### Pictures that are found again -/

/-- The pictures that a call embeds. -/
def embeddedBy (options : FillOptions) (files : ImageFiles) (s : Session) (call : FillCall) :
    List (String × ByteArray) :=
  match s.startPass call.selector with
  | .ok p => p.embedded options files call.values
  | .error _ => []

/-- The pictures that calls embed one after another. -/
def embedded (options : FillOptions) (files : ImageFiles) (s : Session) :
    List FillCall → List (String × ByteArray)
  | [] => []
  | call :: calls => s.embeddedBy options files call ++
      (s.fill options files call.selector call.values).1.embedded options files calls

/-- Whether a call leaves numbers for the ids of links, both of the sheet and of its drawing. -/
def leavesIdsBy (options : FillOptions) (files : ImageFiles) (s : Session) (call : FillCall) :
    Bool :=
  (s.startPass call.selector).toOption.all fun p =>
    (p.run options files call.values).toOption.all Pass.leavesIds

/-- Whether calls one after another leave numbers for the ids of links. -/
def leavesIds (options : FillOptions) (files : ImageFiles) (s : Session) : List FillCall → Bool
  | [] => true
  | call :: calls => s.leavesIdsBy options files call &&
      (s.fill options files call.selector call.values).1.leavesIds options files calls

/-- A run of the pass is the one that the condition speaks of. -/
private theorem leavesIds_of_run {call : FillCall} {p q : Pass}
    (hids : s.leavesIdsBy options files call = true) (hstart : s.startPass call.selector = .ok p)
    (hrun : p.run options files call.values = .ok q) : q.leavesIds = true := by
  rw [leavesIdsBy, hstart, Except.toOption, Option.all_some, hrun, Except.toOption,
    Option.all_some] at hids
  exact hids

/-- A call that fails embeds nothing. -/
private theorem embeddedBy_of_failure (hs : s.StringsKnown) {call : FillCall}
    (h : (s.fill options files call.selector call.values).2.failure.isSome = true) :
    s.embeddedBy options files call = [] := by
  unfold embeddedBy
  split
  · rename_i p hstart
    unfold Pass.embedded
    split
    · rename_i r hfill
      have hrun : p.run options files call.values =
          .ok (r.finishSheet (p.givenFor options files call.values)).save :=
        bind_eq_ok.2 ⟨r, hfill, rfl⟩
      rw [failure_of_run hs hstart hrun] at h
      cases h
    · rfl
  · rfl

/-- A session in which a sheet shows some pictures. -/
structure Showing (most : Nat) (shared : List String) (info : SheetInfo)
    (pictures : List (String × ByteArray)) (s : Session) : Prop extends Steady shared s where
  package : s.package.WritableBeside
  shown : ∃ sheet drawing, Worksheet.load s.package info = .ok sheet ∧
    Drawing.load? s.package sheet = .ok drawing ∧ Illustrated most shared sheet drawing ∧
    ∀ picture ∈ pictures, Package.isPicture picture.1 = true ∧
      ∃ d ∈ drawing, d.Shows s.package picture

section

variable {most : Nat} {shared : List String} {info : SheetInfo} {file : String}
  (hmost : 1 ≤ most) (hfile : '/' ∉ file.toList) (hpath : info.path = "xl/worksheets/" ++ file)
  (hshared : ∀ part ∈ shared, part ∉ [info.path, PartPath.relationshipsOf info.path] ∧
    Package.isPicture part = false ∧ PartPath.begins "xl/drawings/" part = false)

include hmost hfile hpath hshared

/-- A successful call over the sheet keeps the pictures that it shows, and adds those that the call
embeds. -/
theorem Showing.fill {old : List (String × ByteArray)} {call : FillCall} {report : Report}
    (hs : s.Showing most shared info old)
    (hinfo : s.workbook.findSheet call.selector = .ok info)
    (h : s.fill options files call.selector call.values = (next, report))
    (hreport : report.failure = none) (hids : s.leavesIdsBy options files call = true)
    (hnumbers : next.package.lastIndex "xl/media/image" < max32) :
    next.Showing most shared info (old ++ s.embeddedBy options files call) := by
  have hsteady := hs.toSteady.fill h hreport
  obtain ⟨p, q, hstart, hrun, hnext, -⟩ := written_of_fill hs.known h hreport
  have hlocated := located_startPass hstart
  have hduring := shared_during hstart hrun
  have hembedded : s.embeddedBy options files call = p.embedded options files call.values := by
    rw [embeddedBy, hstart]
  -- The drawing that is shown is the one that the pass begins with.
  obtain ⟨sheet, drawing, hsheet, hdrawing, hdraws, hshown⟩ := hs.shown
  obtain ⟨info', sheet', tables, drawing', hinfo', hsheet', htables, hdrawing', hp⟩ :=
    startPass_eq_ok hstart
  cases hinfo.symm.trans hinfo'
  cases hsheet.symm.trans hsheet'
  cases hdrawing.symm.trans hdrawing'
  subst hp
  -- What the pass starts with is where it belongs, and can be written.
  have hplace : sheet.InPlace := ⟨file, hfile, (Worksheet.load_eq_ok hsheet).1.trans hpath⟩
  have hparts : sheet.parts = [info.path, PartPath.relationshipsOf info.path] := by
    rw [Worksheet.parts, (Worksheet.load_eq_ok hsheet).1]
  have hplain : ∀ part ∈ sheet.parts, Package.isPicture part = false := fun part hpart =>
    Bool.eq_false_iff.2 fun hpicture => PartPath.ne_of_begins (hplace.begins_parts part hpart)
      hpicture (by decide) (by decide) rfl
  have hapart := hdraws.apart_tables htables
  have hwritable := writable_startPass_of (G := (Package.isPicture · = false))
    (fun name d hname hread => (hs.package name d hread).resolve_left
      (by rw [hname]; exact Bool.false_ne_true))
    hs.package hstart
    ⟨hplain _ (by simp [Worksheet.parts]), hplain _ (by simp [Worksheet.parts])⟩
    (fun t ht => (hapart t ht).2)
    (fun d hd => ⟨(hdraws.apart d hd _ (by simp [Drawing.parts])).2,
      (hdraws.apart d hd _ (by simp [Drawing.parts])).2⟩)
  -- What is written back after the pass is shared.
  have hget : ∀ name, name ∉ shared → next.package.get? name = q.package.get? name := by
    intro name hname
    rw [hnext]
    refine get?_written (s := s.during q) ?_ fun hmem => hname (hs.within (hduring.2.2.1 ▸ hmem))
    rw [hduring.1, hduring.2.1]
    exact hs.sound.relsPath
  -- The session takes no numbers at the end that the pass has not taken.
  have htaken : q.package.lastIndex "xl/media/image" < max32 := by
    refine Nat.lt_of_le_of_lt ?_ hnumbers
    rw [hnext]
    refine lastIndex_written (s := s.during q) ?_ fun part hpart =>
      (hshared part (hs.within (hduring.2.2.1 ▸ hpart))).2.1
    rw [hduring.1, hduring.2.1]
    exact hs.sound.relsPath
  obtain ⟨hfinal, hpictures⟩ := Pass.pictured_of_run hrun hlocated hmost
    (fun part hpart => (hshared part hpart).2.2) hplace hdraws (fun t ht => (hapart t ht).2) hshown
    (leavesIds_of_run hids hstart hrun) htaken
  obtain ⟨again, hload, hloadDrawing, hagain⟩ :=
    Fill.Pass.exists_load_of_run hrun ⟨rfl, rfl⟩ hwritable hlocated hplace hsheet hfinal
      (fun t ht => (hapart t ht).1) (fun part hpart => hparts ▸ (hshared part hpart).1) hget
  refine { hsteady with package := ?_, shown := ⟨again, _, hload, hloadDrawing, hagain, ?_⟩ }
  · subst hnext
    exact writableBeside_written hsteady.sound
      (Pass.writableBeside_of_run ⟨rfl, rfl⟩ hwritable hrun)
  · intro picture hpicture
    obtain ⟨hname, d, hd, hshows⟩ := hpictures picture (hembedded ▸ hpicture)
    refine ⟨hname, d.tidied, Option.mem_map_of_mem _ hd,
      hshows.tidied.congr (hget _ fun hmem => ?_)⟩
    rw [(hshared _ hmem).2.1] at hname
    cases hname

/-- So do any calls over the sheet, of which those that fail change nothing. -/
theorem Showing.fillCalls {old : List (String × ByteArray)} {calls : List FillCall}
    (hs : s.Showing most shared info old)
    (hinfo : ∀ call ∈ calls, s.workbook.findSheet call.selector = .ok info)
    (hids : s.leavesIds options files calls = true)
    (hnumbers : (s.fillCalls options files calls).1.package.lastIndex "xl/media/image" < max32) :
    (s.fillCalls options files calls).1.Showing most shared info
      (old ++ s.embedded options files calls) := by
  -- Call by call: a failed one leaves all as it is, and any other shows its own pictures too.
  induction calls generalizing s old with
  | nil =>
    rw [embedded, List.append_nil]
    exact hs
  | cons call calls ih =>
    obtain ⟨hfirst, hrest⟩ := List.forall_mem_cons.1 hinfo
    obtain ⟨hidsFirst, hidsRest⟩ := Bool.and_eq_true_iff.1 hids
    rw [Session.fillCalls] at hnumbers ⊢
    dsimp only at hnumbers ⊢
    rw [embedded, ← List.append_assoc]
    have hsheets := sheets_of_fill options files s call.selector call.values
    have hfind : ∀ call' ∈ calls, (s.fill options files call.selector
        call.values).1.workbook.findSheet call'.selector = .ok info := fun call' hcall =>
      (Workbook.findSheet_congr hsheets _).trans (hrest call' hcall)
    cases hfailure : (s.fill options files call.selector call.values).2.failure with
    | some failure =>
      rw [embeddedBy_of_failure hs.known (by rw [hfailure]; rfl), List.append_nil]
      have hsame : (s.fill options files call.selector call.values).1 = s :=
        fill_of_failure options files (by rw [hfailure]; rfl)
      exact ih (hsame.symm ▸ hs) hfind hidsRest hnumbers
    | none =>
      refine ih (hs.fill hmost hfile hpath hshared hfirst Prod.mk.eta.symm hfailure hidsFirst ?_)
        hfind hidsRest hnumbers
      have hsteady := hs.toSteady.fill Prod.mk.eta.symm hfailure
      exact Nat.lt_of_le_of_lt
        (hsteady.lastIndex_fillCalls (fun part hpart => (hshared part hpart).2.1) calls) hnumbers

end

/-- What has to be kept apart for the pictures of a sheet to be found again. A sheet without a
drawing has no `drawing` element, not even one that leads nowhere, and pictures can be linked from
where a drawing is. The links to the drawing and to tables are not filled. No part takes the place
of another: neither the drawing nor a table that of the sheet, a picture or a shared part, and no
shared part that of the sheet, a picture or a new drawing. -/
structure KeepsApart (s : Session) (sheet : Worksheet) (drawing : Option Drawing) : Prop where
  undrawn : drawing = none → sheet.drawingIds = []
  folder : ∀ d ∈ drawing, PartPath.isInFolderOfXl d.path = true
  links : ∀ id ∈ sheet.drawingId?.toList ++ sheet.tableIds, ∀ rel ∈ sheet.link? id,
    Relationships.hasType "hyperlink" rel = false
  drawn : ∀ d ∈ drawing, ∀ part ∈ d.parts,
    part ∉ sheet.parts ++ s.sharedParts ∧ Package.isPicture part = false
  tables : ∀ id ∈ sheet.tableIds, ∀ rel ∈ sheet.link? id, ∀ part, LeadsTo sheet.path rel part →
    part ∉ sheet.parts ∧ Package.isPicture part = false
  shared : ∀ part ∈ s.sharedParts, part ∉ sheet.parts ∧ Package.isPicture part = false ∧
    PartPath.begins "xl/drawings/" part = false

/-- A sheet that keeps apart has its drawing where it belongs. -/
private theorem KeepsApart.illustrated {package : Package} {sheet : Worksheet}
    {drawing : Option Drawing} (h : s.KeepsApart sheet drawing)
    (hload : Drawing.load? package sheet = .ok drawing) :
    Illustrated (max 1 sheet.drawingIds.length) s.sharedParts sheet drawing := by
  refine ⟨h.undrawn, Nat.le_max_right .., fun d hd => ?_, h.folder, h.drawn,
    fun id hid rel hrel => ⟨h.links id (List.mem_append_right _ hid) rel hrel,
      h.tables id hid rel hrel⟩⟩
  obtain ⟨id, rel, hid, hrel, hlead⟩ := Drawing.leadsTo_of_load? (hd ▸ hload)
  refine ⟨id, rel, hid, hrel, h.links id (List.mem_append_left _ ?_) rel hrel, hlead⟩
  rw [hid]
  exact List.mem_singleton_self _

/-- Pictures are found again. After any calls over a sheet that is stored directly in the folder of
sheets, of which some have embedded pictures, the sheet is read with a drawing that shows all of
them, as long as there are numbers for pictures and for the ids of links. It refers to one drawing
if it has referred to at most one before. -/
theorem pictures_found_again {package : Package} {first last : Session} {info : SheetInfo}
    {sheet : Worksheet} {drawing : Option Drawing} {calls : List FillCall}
    (hnames : package.UsesNames) (hopen : ofPackage package = .ok first)
    (hsheet : Worksheet.load package info = .ok sheet)
    (hdrawing : Drawing.load? package sheet = .ok drawing) (hplace : sheet.InPlace)
    (hapart : first.KeepsApart sheet drawing)
    (hcalls : ∀ call ∈ calls, first.workbook.findSheet call.selector = .ok info)
    (hlast : (first.fillCalls options files calls).1 = last)
    (hids : first.leavesIds options files calls = true)
    (hnumbers : last.package.lastIndex "xl/media/image" < max32)
    (hembedded : first.embedded options files calls ≠ []) :
    ∃ sheet' d, Worksheet.load last.package info = .ok sheet' ∧
      Drawing.load? last.package sheet' = .ok (some d) ∧
      (∀ picture ∈ first.embedded options files calls, d.Shows last.package picture) ∧
      ((sheet.doc.root.named "drawing").length ≤ 1 →
        (sheet'.doc.root.named "drawing").length = 1) := by
  subst hlast
  have hpath := (Worksheet.load_eq_ok hsheet).1
  have hpackage : first.package = package := (ofPackage_eq_ok.1 hopen).2.2.2
  -- At the beginning nothing has been put in.
  have hstart : first.Showing (max 1 sheet.drawingIds.length) first.sharedParts info [] := {
    sound := sound_ofPackage hnames hopen
    known := stringsKnown_ofPackage hopen
    within := List.Subset.refl _
    package := fun name d hread => .inr (hnames.writable (hpackage ▸ hread))
    shown := by
      rw [hpackage]
      exact ⟨sheet, drawing, hsheet, hdrawing, hapart.illustrated hdrawing, nofun⟩ }
  obtain ⟨file, hfile, hsheetPath⟩ := hplace
  have hend := hstart.fillCalls (Nat.le_max_left ..) hfile (hpath ▸ hsheetPath)
    (fun part hpart => by
      have hpart := hapart.shared part hpart
      rwa [Worksheet.parts, hpath] at hpart) hcalls hids hnumbers
  rw [List.nil_append] at hend
  obtain ⟨sheet', drawing', hload, hloadDrawing, hdraws, hshown⟩ := hend.shown
  obtain ⟨picture, hpicture⟩ := List.exists_mem_of_ne_nil _ hembedded
  obtain ⟨-, d, hd, -⟩ := hshown picture hpicture
  cases hd
  refine ⟨sheet', d, hload, hloadDrawing, fun other hother => ?_, fun hone => ?_⟩
  · obtain ⟨-, _, hd, hshows⟩ := hshown other hother
    cases hd
    exact hshows
  -- The drawing is linked, so there is a reference to it.
  · obtain ⟨id, -, hid, -⟩ := hdraws.link d rfl
    have hmost := hdraws.most
    rw [Worksheet.drawingId?_eq] at hid
    rw [Worksheet.drawingIds, List.length_map] at hmost
    have hsome : (sheet'.doc.root.named "drawing").length ≠ 0 := by
      intro hnone
      rw [Worksheet.drawingIds, List.length_eq_zero_iff.1 hnone] at hid
      cases hid
    rw [Worksheet.drawingIds, List.length_map, Nat.max_eq_left hone] at hmost
    omega

/-- A sheet that shows a text, and refers to drawings. -/
private def galleryPlan (drawn : List Element) : Document where
  root := .ofChildren "worksheet" [("xmlns:r", "relationships")] ([
    .ofChildren "sheetData" [] [.ofChildren "row" [("r", "1")] [
      .ofChildren "c" [("r", "A1"), ("t", "s")] [.ofText "v" "0"]]]] ++ drawn)

/-- The documents of a workbook with such a sheet. -/
private def galleryDocuments (text : String) (drawn : List Element) : List (String × Document) :=
  [(Package.contentTypesPart, { root := { name := "Types" } }),
    ("xl/workbook.xml", { root := .ofChildren "workbook" [] [.ofChildren "sheets" [] [
      { name := "sheet", attributes := [("name", "Plan"), ("r:id", "plan")] }]] }),
    ("xl/_rels/workbook.xml.rels", { root := .ofChildren "Relationships" [] [
      workbookLink "plan" "worksheet" "worksheets/plan.xml",
      workbookLink "strings" "sharedStrings" "strings.xml"] }),
    ("xl/strings.xml", { root := .ofChildren "sst" [] [.ofChildren "si" [] [.ofText "t" text]] }),
    ("xl/worksheets/plan.xml", galleryPlan drawn)]

/-- Two calls, of which the second embeds a picture. It finds the placeholder of the picture in the
text that the first has filled in. -/
private def galleryCalls : List FillCall :=
  [⟨.name "Plan", [("x", .text "${image:y}")]⟩, ⟨.name "Plan", [("y", .image (.bytes pixel))]⟩]

/-- The sheet as the workbook lists it. -/
private def galleryInfo : SheetInfo :=
  { name := "Plan", sheetId := none, relId := "plan", path := "xl/worksheets/plan.xml" }

/-- The sheet as it is read. -/
private def gallerySheet (drawn : List Element) : Worksheet :=
  { name := galleryInfo.name, path := galleryInfo.path, doc := galleryPlan drawn, rels := none }

/-- The pass over the sheet before its first row. -/
private def galleryPass (text : String) (drawn : List Element) : Pass where
  sheet := gallerySheet drawn
  tables := []
  drawing := none
  strings := (ofDocuments (galleryDocuments text drawn)).strings.table
  workbook := (ofDocuments (galleryDocuments text drawn)).workbook
  package := .ofDocuments (galleryDocuments text drawn)
  types := (ofDocuments (galleryDocuments text drawn)).types

/-- Packages of the sample open with a sheet that has no drawing. -/
private theorem open_gallery (text : String) (drawn : List Element)
    (h : ∀ part ∈ galleryDocuments text drawn,
      part.2.Writable ∧ part.2.tidy = part.2 ∧ part.2.root.Named) :
    (Package.ofDocuments (galleryDocuments text drawn)).UsesNames ∧
      ofPackage (.ofDocuments (galleryDocuments text drawn)) =
        .ok (ofDocuments (galleryDocuments text drawn)) ∧
      Worksheet.load (.ofDocuments (galleryDocuments text drawn)) galleryInfo =
        .ok (gallerySheet drawn) ∧
      Drawing.load? (.ofDocuments (galleryDocuments text drawn)) (gallerySheet drawn) = .ok none ∧
      (ofDocuments (galleryDocuments text drawn)).startPass (.name "Plan") =
        .ok (galleryPass text drawn) := by
  have hdocuments := fun part hpart => And.intro (h part hpart).1 (h part hpart).2.1
  have hstart := startPass_ofDocuments hdocuments (.name "Plan") galleryInfo rfl rfl rfl
  obtain ⟨info, sheet, tables, drawing, hinfo, hsheet, -, hdrawing, heq⟩ := startPass_eq_ok hstart
  cases heq
  cases (rfl : (ofDocuments _).workbook.findSheet (.name "Plan") = .ok galleryInfo).symm.trans hinfo
  refine ⟨Package.usesNames_ofDocuments h, ofPackage_ofDocuments hdocuments rfl ?_, hsheet,
    hdrawing, hstart⟩
  rw [List.forall_mem_cons, List.forall_mem_cons, List.forall_mem_singleton]
  exact ⟨rfl, rfl, rfl⟩

/-- All calls of the sample fill the same sheet. -/
private theorem findSheet_gallery (text : String) (drawn : List Element) : ∀ call ∈ galleryCalls,
    (ofDocuments (galleryDocuments text drawn)).workbook.findSheet call.selector =
      .ok galleryInfo := by
  rw [galleryCalls, List.forall_mem_cons, List.forall_mem_singleton]
  exact ⟨rfl, rfl⟩

/-- A sheet that gets its drawing in the second of two calls. -/
theorem pictures_found_again_sample :
    ∃ (first last : Session) (info : SheetInfo) (sheet : Worksheet) (d : Drawing),
      ofPackage (.ofDocuments (galleryDocuments "${x}" [])) = .ok first ∧
      (first.fillCalls {} (fun _ => none) galleryCalls).1 = last ∧
      first.embedded {} (fun _ => none) galleryCalls = [("xl/media/image1.gif", pixel)] ∧
      Worksheet.load last.package info = .ok sheet ∧
      Drawing.load? last.package sheet = .ok (some d) ∧
      d.Shows last.package ("xl/media/image1.gif", pixel) ∧
      (sheet.doc.root.named "drawing").length = 1 := by
  obtain ⟨hnames, hopen, hsheet, hdrawing, -⟩ := open_gallery "${x}" [] (by decide +kernel)
  have hcalls := findSheet_gallery "${x}" []
  have hapart : (ofDocuments (galleryDocuments "${x}" [])).KeepsApart (gallerySheet []) none :=
    ⟨fun _ => rfl, by simp, by simp [gallerySheet, Worksheet.link?], by simp,
      by simp [gallerySheet, Worksheet.link?], by decide +kernel⟩
  have hone : (gallerySheet []).doc.root.named "drawing" = [] := rfl
  generalize hfirst : ofDocuments (galleryDocuments "${x}" []) = first at hopen hcalls hapart
  generalize hlast : (first.fillCalls {} (fun _ => none) galleryCalls).1 = last
  -- The calls of the sample are evaluated.
  have hresult : first.embedded {} (fun _ => none) galleryCalls =
      [("xl/media/image1.gif", pixel)] ∧
      first.leavesIds {} (fun _ => none) galleryCalls = true ∧
      last.package.lastIndex "xl/media/image" < max32 := by
    rw [← hlast, ← hfirst]
    decide +kernel
  obtain ⟨hembedded, hids, hnumbers⟩ := hresult
  obtain ⟨sheet, d, hload, hloadDrawing, hshows, hcount⟩ := pictures_found_again hnames hopen hsheet
    hdrawing ⟨"plan.xml", by decide, rfl⟩ hapart hcalls hlast hids hnumbers
    (by rw [hembedded]; exact List.cons_ne_nil _ _)
  refine ⟨first, last, galleryInfo, sheet, d, hopen, hlast, hembedded, hload, hloadDrawing, ?_,
    hcount (by rw [hone]; exact Nat.zero_le 1)⟩
  exact hshows _ (hembedded ▸ List.mem_singleton_self _)

/-- A reference to a drawing that is not linked. -/
private def danglingDrawing : List Element :=
  [{ name := "drawing", attributes := [("r:id", "rId9")] }]

/-- Whether a pass over it leaves a sheet that refers first to what is not linked, in parts that
nothing else is written to. -/
private def leavesDangling (first : Session) (q : Pass) : Bool :=
  q.sheet.drawingIds.head?.join = some "rId9" ∧ q.sheet.link? "rId9" = none ∧
  q.sheet.rels.isSome = true ∧ q.sheet.path = galleryInfo.path ∧
  (∀ rels ∈ q.sheet.rels, rels.path = PartPath.relationshipsOf q.sheet.path) ∧
  (∀ t ∈ q.tables, t.path ∉ q.sheet.parts) ∧
  (∀ d ∈ q.drawing, ∀ part ∈ [d.path, d.rels.path], part ∉ q.sheet.parts) ∧
  (∀ part ∈ q.sheet.parts, part ∉ (first.during q).sharedParts) ∧
  q.workbook.rels.path = PartPath.relationshipsOf q.workbook.path ∧ q.leavesIds = true ∧
  ((first.during q).written q.workbook.rels q.types).package.lastIndex "xl/media/image" < max32

/-- It is not enough that a sheet is in its place. Where its `drawing` element leads nowhere, it
gets a second one behind it, which is never read; so the pictures are not found again. -/
theorem drawing_behind_another :
    ¬∀ (options : FillOptions) (files : ImageFiles) (package : Package) (first last : Session)
        (info : SheetInfo) (sheet : Worksheet) (drawing : Option Drawing) (calls : List FillCall),
      package.UsesNames → ofPackage package = .ok first →
      Worksheet.load package info = .ok sheet → Drawing.load? package sheet = .ok drawing →
      sheet.InPlace →
      (∀ call ∈ calls, first.workbook.findSheet call.selector = .ok info) →
      (first.fillCalls options files calls).1 = last →
      (∀ report ∈ (first.fillCalls options files calls).2, report.failure.isNone = true) →
      first.leavesIds options files calls = true → last.package.lastIndex "xl/media/image" < max32 →
      first.embedded options files calls ≠ [] →
      ∃ sheet' d, Worksheet.load last.package info = .ok sheet' ∧
        Drawing.load? last.package sheet' = .ok (some d) := by
  intro hall
  obtain ⟨hnames, hopen, hsheet, hdrawing, hstart⟩ :=
    open_gallery "${image:x}" danglingDrawing (by decide +kernel)
  have hwritable := writable_startPass (fun _ _ hread => hnames.writable hread) hstart
  have hembedded : (galleryPass "${image:x}" danglingDrawing).embedded {} (fun _ => none)
      [("x", .image (.bytes pixel))] ≠ [] := by
    decide +kernel
  generalize hfirst : ofDocuments (galleryDocuments "${image:x}" danglingDrawing) = first
    at hopen hstart
  -- The call writes a sheet that refers to the missing drawing first.
  obtain ⟨q, report, hrun, hq, -, hreport, hfill⟩ := fill_of_any {} (fun _ => none)
    [("x", .image (.bytes pixel))] (stringsKnown_ofPackage hopen) hstart
    (P := leavesDangling first) (by rw [← hfirst]; decide +kernel)
  obtain ⟨hid, hdangling, hsome, hpath, hrels, htables, hdrawn, hunshared, hworkbook, hids,
    hnumbers⟩ := of_decide_eq_true hq
  obtain ⟨r, rfl, hr⟩ := Pass.writable_parts_of_run ⟨rfl, rfl⟩ hwritable hrun
  obtain ⟨hget, hgetRels⟩ := Fill.Pass.get?_save_sheet (r := r) hrels htables hdrawn
  have hkept : ∀ part ∈ r.sheet.parts, ((first.during r.save).written r.save.workbook.rels
      r.save.types).package.get? part = r.save.package.get? part := fun part hpart =>
    get?_written (s := first.during r.save) hworkbook (hunshared part hpart)
  have hown : r.sheet.path ∈ r.sheet.parts ∧
      PartPath.relationshipsOf r.sheet.path ∈ r.sheet.parts := by
    simp [Worksheet.parts]
  obtain ⟨again, hagain, hlinks⟩ := Worksheet.exists_load hpath
    ((hkept _ hown.1).trans hget) hr.sheet
    (fun rels hmem => ⟨hrels rels hmem, (hkept _ (by rw [hrels rels hmem]; exact hown.2)).trans
      (hgetRels rels hmem), hr.rels rels hmem⟩)
    (fun hnone => by
      rw [show r.save.sheet.rels = none from hnone] at hsome
      cases hsome)
  generalize ((first.during r.save).written r.save.workbook.rels r.save.types) = last
    at hnumbers hagain hfill
  have hcalls : first.fillCalls {} (fun _ => none)
      [⟨.name "Plan", [("x", .image (.bytes pixel))]⟩] = (last, [report]) := by
    rw [fillCalls]
    dsimp only
    rw [hfill]
    rfl
  -- The law says that the drawing can be read.
  obtain ⟨sheet, d, hload, hloadDrawing⟩ := hall {} (fun _ => none) _ first last galleryInfo _ none
    [⟨.name "Plan", [("x", .image (.bytes pixel))]⟩] hnames hopen hsheet hdrawing
    ⟨"plan.xml", by decide, rfl⟩ (by rw [List.forall_mem_singleton, ← hfirst]; rfl)
    (by rw [hcalls]) (by rw [hcalls, List.forall_mem_singleton, hreport]; rfl)
    (by rw [leavesIds, leavesIdsBy, hstart, Except.toOption, Option.all_some, hrun,
      Except.toOption, Option.all_some, hids]; rfl) hnumbers
    (by rwa [embedded, embedded, embeddedBy, hstart, List.append_nil])
  cases hagain.symm.trans hload
  obtain ⟨id, rel, hfound, hrel, -⟩ := Drawing.leadsTo_of_load? hloadDrawing
  obtain ⟨f, -, hlink⟩ := hlinks.links
  -- What is read is the first reference, and that leads nowhere.
  rw [Worksheet.drawingId?_eq, hlinks.drawings] at hfound
  cases hid.symm.trans hfound
  rw [hlink, hdangling] at hrel
  cases hrel

end Session

end SheetTemplate
