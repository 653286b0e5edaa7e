import SheetTemplate.Proofs.PassChanges
import SheetTemplate.Proofs.ReopenedSession
import SheetTemplate.Proofs.SessionPasses

/-!
# Packages whose content types are closed

Content types close a package if every override is for a part of it and every part has a content
type. A pass adds parts and their content types at different times: the content type of a drawing
long before the drawing, that of a picture after it, and none for relationships, which have a
default. What is written back may take the order of calculation away, with its content type. Still,
a package that was closed is closed after each pass.

The part with the order of calculation has to be apart from all others, for its content type is not
given back to a part of its name that is written later.

## Key results

- `ContentTypes.Closes`: closed packages
- `closes_of_run`: a pass
- `content_types_stay_closed`: any calls
-/

namespace SheetTemplate

open Xml (Element Document)
open Fill (Pass)

/-! ### Content types -/

namespace ContentTypes

/-- Whether a part has a content type: an override, or the default for its extension. -/
def Covers (c : ContentTypes) (part : String) : Prop :=
  c.hasOverride ("/" ++ part) = true ∨ (PartPath.extension? part).any c.hasDefault = true

instance (c : ContentTypes) (part : String) : Decidable (c.Covers part) :=
  inferInstanceAs (Decidable (_ ∨ _))

/-- Content types that fit a package: overrides are for its parts, and all its parts are covered but
the one with the content types. -/
structure Closes (c : ContentTypes) (p : Package) : Prop where
  overrides : ∀ e ∈ c.doc.root.named "Override",
    ∃ part ∈ p.names, e.attr? "PartName" = some ("/" ++ part)
  parts : ∀ part ∈ p.names, part ≠ Package.contentTypesPart → c.Covers part

instance (c : ContentTypes) (p : Package) : Decidable (c.Closes p) :=
  decidable_of_iff
    ((∀ e ∈ c.doc.root.named "Override",
        ∃ part ∈ p.names, e.attr? "PartName" = some ("/" ++ part)) ∧
      ∀ part ∈ p.names, part ≠ Package.contentTypesPart → c.Covers part)
    ⟨fun h => ⟨h.1, h.2⟩, fun h => ⟨h.1, h.2⟩⟩

variable {c : ContentTypes} {part : String}

/-- A default is added without touching the overrides. -/
private theorem overrides_ensureDefault (c : ContentTypes) (extension type : String) :
    (c.ensureDefault extension type).doc.root.named "Override" = c.doc.root.named "Override" := by
  unfold ensureDefault
  split
  · rfl
  · obtain ⟨before, after, helements, hinsert⟩ := Element.elements_insert c.doc.root
      { name := "Default", attributes := [("Extension", extension), ("ContentType", type)] }
      ((c.doc.root.position? "Override").getD c.doc.root.children.length)
    rw [mapRoot, Element.named, Element.named, hinsert, helements]
    simp

/-- Another default leaves the defaults there are. -/
private theorem hasDefault_ensureDefault {extension : String} (h : c.hasDefault extension = true)
    (other type : String) : (c.ensureDefault other type).hasDefault extension = true := by
  -- A new default is put in before the overrides, with the old ones on both sides of it.
  unfold ensureDefault
  split
  · exact h
  · obtain ⟨before, after, helements, hinsert⟩ := Element.elements_insert c.doc.root
      { name := "Default", attributes := [("Extension", other), ("ContentType", type)] }
      ((c.doc.root.position? "Override").getD c.doc.root.children.length)
    rw [hasDefault, Element.named, helements] at h
    rw [hasDefault, mapRoot, Element.named, hinsert]
    simp only [List.filter_append, List.any_append, List.filter_cons] at h ⊢
    simp only [Bool.or_eq_true] at h ⊢
    rcases h with h | h
    · exact .inl h
    · exact .inr (by simp [h])

/-- The default asked for is there afterwards. -/
private theorem hasDefault_ensureDefault_self (c : ContentTypes) (extension type : String) :
    (c.ensureDefault extension type).hasDefault extension = true := by
  unfold ensureDefault
  split
  · assumption
  · obtain ⟨before, after, helements, hinsert⟩ := Element.elements_insert c.doc.root
      { name := "Default", attributes := [("Extension", extension), ("ContentType", type)] }
      ((c.doc.root.position? "Override").getD c.doc.root.children.length)
    rw [hasDefault, mapRoot, Element.named, hinsert]
    simp [sameExtension, Element.attr?]

/-- An override is no default. -/
private theorem hasDefault_ensureOverride (c : ContentTypes) (extension other type : String) :
    (c.ensureOverride other type).hasDefault extension = c.hasDefault extension := by
  unfold ensureOverride
  split
  · rfl
  · rw [hasDefault, hasDefault, mapRoot, Element.named, Element.elements_push]
    simp [Element.named]

/-- Removing an override removes no default. -/
private theorem hasDefault_removeOverride (c : ContentTypes) (extension other : String) :
    (c.removeOverride other).hasDefault extension = c.hasDefault extension := by
  have hname : ∀ e : Element, (e.name == "Default" && (!(e.name == "Override" &&
      e.attr? "PartName" == some other))) = (e.name == "Default") := by
    intro e
    by_cases h : e.name = "Default" <;> simp [h]
  rw [hasDefault, hasDefault, removeOverride, mapRoot, Element.named, Element.named,
    Element.elements_removeWhere, List.filter_filter]
  simp only [hname]

/-- An override that was added is for the part, and the others were there. -/
private theorem mem_ensureOverride {other type : String} {e : Element}
    (h : e ∈ (c.ensureOverride other type).doc.root.named "Override") :
    e ∈ c.doc.root.named "Override" ∨ e.attr? "PartName" = some other := by
  unfold ensureOverride at h
  split at h
  · exact .inl h
  · rw [mapRoot, Element.named, Element.elements_push, List.filter_append] at h
    refine (List.mem_append.1 h).imp_right fun h => ?_
    rw [List.mem_singleton.1 (List.mem_of_mem_filter h)]
    rfl

/-- An override that is left was there before and is for another part. -/
private theorem mem_removeOverride {other : String} {e : Element}
    (h : e ∈ (c.removeOverride other).doc.root.named "Override") :
    e ∈ c.doc.root.named "Override" ∧ e.attr? "PartName" ≠ some other := by
  rw [removeOverride, mapRoot, Element.named, Element.elements_removeWhere, List.filter_filter] at h
  obtain ⟨hmem, hkept⟩ := List.mem_filter.1 h
  simp only [Bool.and_eq_true, beq_iff_eq, Bool.not_eq_true', Bool.and_eq_false_iff,
    beq_eq_false_iff_ne] at hkept
  exact ⟨List.mem_filter.2 ⟨hmem, by simp [hkept.1]⟩, hkept.2.resolve_left (absurd hkept.1)⟩

/-- What holds of a value under one condition holds under a weaker one. -/
private theorem any_mono {o : Option String} {p q : String → Bool}
    (h : ∀ x, p x = true → q x = true) (ho : o.any p = true) : o.any q = true := by
  cases o with
  | none => exact ho
  | some x => exact h x ho

/-- A part that has a content type keeps it when a default is added. -/
theorem Covers.ensureDefault (h : c.Covers part) (extension type : String) :
    (c.ensureDefault extension type).Covers part :=
  h.imp (hasOverride_ensureDefault · extension type)
    (any_mono fun _ hx => hasDefault_ensureDefault hx extension type)

/-- It keeps it when an override is added. -/
theorem Covers.ensureOverride (h : c.Covers part) (other type : String) :
    (c.ensureOverride other type).Covers part :=
  h.imp (hasOverride_ensureOverride · other type)
    (any_mono fun _ hx => by rwa [hasDefault_ensureOverride])

/-- It keeps it when the override of another part is removed. -/
theorem Covers.removeOverride (h : c.Covers part) {other : String} (hne : part ≠ other) :
    (c.removeOverride ("/" ++ other)).Covers part := by
  refine h.imp (fun h => hasOverride_removeOverride_of_ne h fun heq => hne ?_)
    (any_mono fun _ hx => by rwa [hasDefault_removeOverride])
  simpa using heq

/-- A part is covered by the default for its extension. -/
theorem covers_of_hasDefault {extension : String} (h : c.hasDefault extension = true)
    (hpart : PartPath.extension? part = some extension) : c.Covers part :=
  .inr (by rw [hpart]; exact h)

/-- What content types close does not change where they are written and read. -/
theorem Closes.tidy {p : Package} (h : c.Closes p) (hc : c.Alike c) :
    ContentTypes.Closes { doc := c.doc.tidy } p := by
  have hsame : c.Alike { doc := c.doc.tidy } := Xml.SameDocument.tidy_right hc.root.left
  refine ⟨fun e he => ?_, fun part hpart hne => ?_⟩
  · rw [Document.tidy, Element.named_tidy] at he
    obtain ⟨override, hmem, rfl⟩ := List.mem_map.1 he
    rw [override.attr?_tidy]
    exact h.overrides override hmem
  · refine (h.parts part hpart hne).imp (fun h => ?_) (any_mono fun x hx => ?_)
    · rwa [hsame.hasOverride]
    · rwa [hsame.hasDefault]

end ContentTypes

/-! ### A pass -/

namespace Fill.Pass

/-- The parts that are written when a pass is done. -/
def touched (p : Pass) : List String :=
  p.sheet.path :: ((p.sheet.rels.map (·.path)).toList ++ p.tables.map (·.path) ++
    ((p.drawing.map fun d => [d.path, d.rels.path]).getD []))

/-- A pass that was at `before`, and whose content types close what the package has and is going to
have. -/
structure Closed (before p : Pass) : Prop where
  names : before.package.names ⊆ p.package.names
  covers : ∀ part, before.types.Covers part → p.types.Covers part
  rels : p.types.hasDefault "rels" = true
  overrides : ∀ e ∈ p.types.doc.root.named "Override",
    ∃ part, e.attr? "PartName" = some ("/" ++ part) ∧
      (part ∈ p.package.names ∨ p.drawing.map (·.path) = some part)
  parts : ∀ part, part ∈ p.package.names ∨ part ∈ p.touched →
    part ≠ Package.contentTypesPart → p.types.Covers part

variable {before p p' : Pass}

/-- A change that adds no part and no content type. -/
private theorem Closed.of_same (h : Closed before p) (htypes : p'.types = p.types)
    (hpackage : p'.package = p.package)
    (hdrawing : p'.drawing.map (·.path) = p.drawing.map (·.path))
    (htouched : p'.touched ⊆ p.touched) : Closed before p' := by
  -- What the package, the content types and the place of the drawing decide is decided as before.
  refine ⟨?_, ?_, ?_, ?_, fun part hpart hne => ?_⟩
  · rw [hpackage]
    exact h.names
  · rw [htypes]
    exact h.covers
  · rw [htypes]
    exact h.rels
  · rw [htypes, hpackage, hdrawing]
    exact h.overrides
  · rw [hpackage] at hpart
    rw [htypes]
    exact h.parts part (hpart.imp_right fun hmem => htouched hmem) hne

/-- A drawing that is begun gets its content type, while its part is written later. -/
private theorem closed_of_drawing {sheet sheet' : Worksheet} {types' : ContentTypes}
    {drawing : Drawing} (h : Closed before p) (hnone : p.drawing = none)
    (hsheet : p.sheet.withRels? p.package = some sheet)
    (hcreate : Drawing.create p.package sheet
      (p.types.ensureDefault "rels" ContentTypes.relationships) = .ok (drawing, sheet', types')) :
    Closed before { p with sheet := sheet', types := types', drawing := some drawing } := by
  obtain ⟨rels, rels', id, hrels, hadd, rfl, rfl, rfl⟩ := Drawing.create_eq_ok hcreate
  obtain ⟨-, hpath, hfrom⟩ := Worksheet.withRels?_eq_some hsheet
  obtain ⟨-, rfl⟩ := Relationships.add_eq_ok hadd
  have hcovers : ∀ part, p.types.Covers part →
      ((p.types.ensureDefault "rels" ContentTypes.relationships).ensureOverride
        ("/" ++ ("xl/drawings/" ++ Drawing.newFile p.package)) ContentTypes.drawing).Covers part :=
    fun part hpart => (hpart.ensureDefault _ _).ensureOverride _ _
  have hdefault : ((p.types.ensureDefault "rels" ContentTypes.relationships).ensureOverride
      ("/" ++ ("xl/drawings/" ++ Drawing.newFile p.package)) ContentTypes.drawing).hasDefault
        "rels" = true := by
    rw [ContentTypes.hasDefault_ensureOverride]
    exact ContentTypes.hasDefault_ensureDefault h.rels _ _
  refine ⟨h.names, fun part hpart => hcovers part (h.covers part hpart), hdefault,
    fun e he => ?_, fun part hpart hne => ?_⟩
  -- The one new override is for the new drawing.
  · rcases ContentTypes.mem_ensureOverride he with hold | hnew
    · rw [ContentTypes.overrides_ensureDefault] at hold
      obtain ⟨part, hname, hpart⟩ := h.overrides e hold
      rw [hnone] at hpart
      exact ⟨part, hname, .inl (hpart.resolve_right (by simp))⟩
    · exact ⟨_, hnew, .inr rfl⟩
  -- The parts that are touched are the sheet, its relationships, the tables, and the drawing with
  -- its own relationships.
  · rcases hpart with hpart | hpart
    · exact hcovers part (h.parts part (.inl hpart) hne)
    · simp only [touched, List.mem_cons, List.mem_append, Option.map_some, List.mem_map,
        Option.getD_some, List.not_mem_nil, or_false] at hpart
      rcases hpart with rfl | (hrel | ⟨t, ht, rfl⟩) | rfl | rfl
      · refine hcovers _ (h.parts _ (.inr ?_) hne)
        rw [hpath]
        exact List.mem_cons_self
      · obtain rfl : part = rels.path := List.mem_singleton.1 hrel
        rcases hfrom with hsame | ⟨-, hempty⟩
        · refine hcovers _ (h.parts _ (.inr ?_) hne)
          simp [touched, ← hsame, hrels]
        · rw [hrels] at hempty
          cases hempty
          exact ContentTypes.covers_of_hasDefault hdefault (PartPath.extension?_relationshipsOf _)
      · refine hcovers _ (h.parts _ (.inr ?_) hne)
        simp only [touched, List.mem_cons, List.mem_append, List.mem_map]
        exact .inr (.inl (.inr ⟨t, ht, rfl⟩))
      · exact .inl (ContentTypes.hasOverride_ensureOverride_self ..)
      · exact ContentTypes.covers_of_hasDefault hdefault (PartPath.extension?_relationshipsOf _)

/-- A picture that is stored gets the content type of its format, if that has none. -/
private theorem closed_of_picture {drawing linked : Drawing} {id : String}
    (picture : Image.Picture) (col row : Nat) (extent : Image.Extent) (h : Closed before p)
    (hdrawing : p.drawing = some drawing)
    (hlink : drawing.link (Drawing.pictureFile p.package picture) = .ok (linked, id)) :
    Closed before { p with
      package := p.package.set ("xl/media/" ++ Drawing.pictureFile p.package picture) picture.bytes
      types := p.types.ensureDefault picture.format.extension picture.format.contentType
      drawing := some (linked.addPicture col row extent id) } := by
  obtain ⟨rels, hadd, rfl⟩ := Drawing.link_eq_ok hlink
  obtain ⟨-, rfl⟩ := Relationships.add_eq_ok hadd
  refine ⟨fun part hpart => Package.mem_names_set.2 (.inr (h.names hpart)),
    fun part hpart => (h.covers part hpart).ensureDefault _ _,
    ContentTypes.hasDefault_ensureDefault h.rels _ _, fun e he => ?_, fun part hpart hne => ?_⟩
  · rw [ContentTypes.overrides_ensureDefault] at he
    obtain ⟨part, hname, hpart⟩ := h.overrides e he
    refine ⟨part, hname,
      hpart.imp (fun hmem => Package.mem_names_set.2 (.inr hmem)) fun hpath => ?_⟩
    rwa [hdrawing] at hpath
  · -- The picture has an extension with a default, and all else was covered.
    by_cases hnew : part = "xl/media/" ++ Drawing.pictureFile p.package picture
    · refine ContentTypes.covers_of_hasDefault (ContentTypes.hasDefault_ensureDefault_self ..) ?_
      rw [hnew, Drawing.pictureFile, ← String.append_assoc, ← String.append_assoc]
      cases picture.format <;> exact PartPath.extension?_append _ (by decide) (by decide)
    · refine .ensureDefault (h.parts part ?_ hne) _ _
      refine hpart.imp (fun hmem => (Package.mem_names_set.1 hmem).resolve_left hnew) fun hmem => ?_
      simpa [touched, hdrawing, Drawing.addPicture, Relationships.mapRoot] using hmem

/-- Every change keeps a package closed: only a drawing and a picture concern content types at
all. -/
private theorem closed_of_change (hchange : Change p p') (h : Closed before p) :
    Closed before p' := by
  cases hchange with
  | text => exact h.of_same rfl rfl rfl (List.Subset.refl _)
  | shiftRight => exact h.of_same rfl rfl rfl (List.Subset.refl _)
  | shiftDown shift =>
    refine h.of_same rfl rfl rfl fun part hpart => ?_
    simpa [touched, shiftDown, Worksheet.mapRoot, Function.comp_def, path_shiftTable] using hpart
  | extendTables inside cell =>
    refine h.of_same rfl rfl rfl fun part hpart => ?_
    simp only [touched, extendTables, List.mem_cons, List.mem_append, List.mem_map] at hpart ⊢
    refine hpart.imp_right (.imp_left (.imp_right ?_))
    rintro ⟨t, ⟨⟨old, isParent⟩, hold, rfl⟩, rfl⟩
    refine ⟨old, (List.of_mem_zip hold).1, ?_⟩
    dsimp only
    split
    · exact (path_extendTable cell old).symm
    · rfl
  | drawing hnone hsheet hcreate => exact closed_of_drawing h hnone hsheet hcreate
  | picture picture col row extent hdrawing hlink =>
    exact closed_of_picture picture col row extent h hdrawing hlink
  | skip => exact h.of_same rfl rfl rfl (List.Subset.refl _)
  | rows => exact h.of_same rfl rfl rfl (List.Subset.refl _)
  | moveAnchors row rows sameLine limit =>
    refine h.of_same rfl rfl ?_ fun part hpart => ?_
    · simp [Function.comp_def, Drawing.moveAnchors]
    · simpa [touched, Function.comp_def, Drawing.moveAnchors] using hpart

/-- Saving tables adds their parts. -/
private theorem mem_names_saveTables {part : String} (tables : List Table) (package : Package) :
    part ∈ (tables.foldl (fun package table => table.save package) package).names ↔
      part ∈ package.names ∨ part ∈ tables.map (·.path) := by
  induction tables generalizing package with
  | nil => simp
  | cons t tables ih =>
    rw [List.foldl_cons, ih, Table.save, Package.setXml, Package.mem_names_set, List.map_cons,
      List.mem_cons]
    grind

/-- What a pass has touched is written when it is done, and nothing else. -/
private theorem mem_names_save {part : String} :
    part ∈ p.save.package.names ↔ part ∈ p.package.names ∨ part ∈ p.touched := by
  -- The sheet and its relationships are written first, then the tables, then the drawing.
  have hsheet : part ∈ (p.sheet.save p.package).names ↔ part ∈ p.package.names ∨
      part = p.sheet.path ∨ part ∈ (p.sheet.rels.map (·.path)).toList := by
    unfold Worksheet.save
    cases p.sheet.rels with
    | none => simp [Package.setXml, or_comm]
    | some rels =>
      simp [Relationships.save, Package.setXml]
      grind
  have hsaved : part ∈ (p.tables.foldl (fun package table => table.save package)
      (p.sheet.save p.package)).names ↔ part ∈ p.package.names ∨ part = p.sheet.path ∨
        part ∈ (p.sheet.rels.map (·.path)).toList ++ p.tables.map (·.path) := by
    rw [mem_names_saveTables, hsheet, List.mem_append]
    grind
  unfold save touched
  dsimp only
  cases p.drawing with
  | none =>
    refine hsaved.trans ?_
    simp
  | some drawing =>
    dsimp only
    rw [Drawing.save, Relationships.save, Package.setXml, Package.mem_names_set, Package.setXml,
      Package.mem_names_set, hsaved]
    simp only [List.mem_cons, List.mem_append, Option.map_some, Option.getD_some,
      List.not_mem_nil, or_false]
    grind

/-- What concerns the sheet as a whole is no new part. -/
private theorem touched_finishSheet (given : Given) (p : Pass) :
    (p.finishSheet given).touched = p.touched := by
  simp [touched, finishSheet, fillLinks, Worksheet.mapRoot, Relationships.mapRoot,
    Table.mapColumns, Function.comp_def]

/-- A pass over a closed package closes what it adds. -/
theorem closes_of_run {options : FillOptions} {files : ImageFiles} {values : Substitutions}
    {q : Pass} (hp : Closed p p) (h : p.run options files values = .ok q) :
    q.types.Closes q.package ∧ q.types.hasDefault "rels" = true ∧
      p.package.names ⊆ q.package.names := by
  obtain ⟨r, hchanges, rfl⟩ := changes_of_run h
  have hbare : Closed p p.withoutRows := hp.of_same rfl rfl rfl (List.Subset.refl _)
  have hr := hchanges.keep (fun _ _ => closed_of_change) hbare
  generalize p.givenFor options files values = given
  have hnames : ∀ part, part ∈ (r.finishSheet given).save.package.names ↔
      part ∈ r.package.names ∨ part ∈ r.touched := fun part => by
    rw [mem_names_save, touched_finishSheet]
    rfl
  -- Overrides for a drawing that is not in the package yet are for one that is written now.
  refine ⟨⟨fun e he => ?_, fun part hpart hne => ?_⟩, hr.rels, fun part hpart => ?_⟩
  · obtain ⟨part, hname, hpart⟩ := hr.overrides e he
    refine ⟨part, (hnames part).2 (hpart.imp_right fun hdrawing => ?_), hname⟩
    obtain ⟨drawing, hsome, rfl⟩ := Option.map_eq_some_iff.1 hdrawing
    simp [touched, hsome]
  · exact hr.parts part ((hnames part).1 hpart) hne
  · exact (hnames part).2 (.inl (hr.names hpart))

end Fill.Pass

/-! ### Sessions -/

/-- Whether every relationship that leads to the part with the order of calculation is the one that
the workbook has for it. -/
def Package.ChainApart (p : Package) (w : Workbook) : Prop :=
  ∀ chain, w.linked? "calcChain" = some chain → ∀ owner rels,
    Relationships.load? p (PartPath.relationshipsOf owner) = .ok (some rels) →
      ∀ rel ∈ rels.toList, (rel.attr? "Target").map (PartPath.resolve owner) = some chain →
        owner = w.path ∧ Relationships.hasType "calcChain" rel = true

namespace Session

/-- A session with a closed package, in which the order of calculation is apart from the workbook
and the shared strings. -/
structure Closed (s : Session) : Prop where
  known : s.StringsKnown
  closes : s.types.Closes s.package
  rels : s.types.hasDefault "rels" = true
  relsPath : s.workbook.rels.path = PartPath.relationshipsOf s.workbook.path
  workbook : s.workbook.path ∈ s.package.names
  strings : s.strings.existed = true → s.strings.path ∈ s.package.names
  chain : ∀ chain, s.workbook.linked? "calcChain" = some chain →
    chain ≠ s.workbook.path ∧ (s.strings.existed = true → chain ≠ s.strings.path)

/-- A session that is opened is closed if its package is, and if the order of calculation stands
apart. -/
theorem closed_ofPackage {package : Package} {s : Session} (h : ofPackage package = .ok s)
    (hcloses : s.types.Closes package) (hrels : s.types.hasDefault "rels" = true)
    (hapart : package.ChainApart s.workbook)
    (hworkbook : s.workbook.linked? "calcChain" ≠ some s.workbook.path) : s.Closed := by
  have hknown := stringsKnown_ofPackage h
  obtain ⟨hload, hstrings, -, rfl⟩ := ofPackage_eq_ok.1 h
  obtain ⟨-, hdoc, hrelsPath, hread, -⟩ := Workbook.load_eq_ok.1 hload
  -- Shared strings that are there have been found by a relationship.
  have hlinked : s.strings.existed = true →
      s.workbook.sharedStringsPath? = some s.strings.path ∧ s.strings.path ∈ s.package.names := by
    intro hexisted
    rcases load_strings hstrings with ⟨path, d, hpath, hread, heq⟩ | heq | ⟨path, -, heq⟩
    · rw [heq]
      exact ⟨hpath, Package.mem_names_of_requireXml hread⟩
    · rw [heq] at hexisted
      cases hexisted
    · rw [heq] at hexisted
      cases hexisted
  refine ⟨hknown, hcloses, hrels, hrelsPath, Package.mem_names_of_requireXml hdoc,
    fun hexisted => (hlinked hexisted).2, fun chain hchain => ⟨?_, fun hexisted => ?_⟩⟩
  -- The order of calculation is another part than the workbook, and another than the shared
  -- strings.
  · rintro rfl
    exact hworkbook hchain
  · rintro rfl
    have hpath := (hlinked hexisted).1
    unfold Workbook.sharedStringsPath? Workbook.linked? at hpath
    obtain ⟨target, htarget, hresolve⟩ := Option.map_eq_some_iff.1 hpath
    obtain ⟨rel, hrel, htarget⟩ := Option.bind_eq_some_iff.1 htarget
    obtain ⟨-, htype⟩ := hapart _ hchain s.workbook.path s.workbook.rels
      (Relationships.load?_eq_some.2 ⟨hrelsPath, hrelsPath ▸ hread⟩) rel
      (List.mem_of_find?_eq_some hrel) (by rw [htarget, Option.map_some, hresolve])
    rw [Relationships.hasType_calcChain_of_sharedStrings (List.find?_some hrel)] at htype
    cases htype

/-- A pass begins with parts of the package, and with relationships. -/
private theorem touched_startPass {s : Session} {selector : SheetSelector} {p : Pass}
    (h : s.startPass selector = .ok p) {part : String} (hpart : part ∈ p.touched) :
    part ∈ p.package.names ∨ PartPath.extension? part = some "rels" := by
  obtain ⟨info, sheet, tables, drawing, -, hsheet, htables, hdrawing, rfl⟩ := startPass_eq_ok h
  simp only [Pass.touched, List.mem_cons, List.mem_append, List.mem_map] at hpart
  -- What a pass reads at its start is in the package, and relationships have a default.
  rcases hpart with rfl | (hrels | ⟨t, ht, rfl⟩) | hdrawn
  · exact .inl (Package.mem_names_of_requireXml (Worksheet.load_eq_ok hsheet).2.1)
  · cases hsome : sheet.rels with
    | none =>
      rw [hsome] at hrels
      cases hrels
    | some rels =>
      rw [hsome] at hrels
      obtain rfl : part = rels.path := List.mem_singleton.1 hrels
      rw [(Relationships.load?_eq_some.1 (Worksheet.load?_rels hsheet hsome)).1]
      exact .inr (PartPath.extension?_relationshipsOf _)
  · exact .inl (Package.mem_names_of_requireXml (Table.requireXml_of_loadAll htables ht))
  · cases drawing with
    | none => cases hdrawn
    | some drawing =>
      obtain ⟨hread, hpath, -⟩ := Drawing.load?_eq_some hdrawing
      simp only [Option.map_some, Option.getD_some, List.mem_cons, List.not_mem_nil,
        or_false] at hdrawn
      rcases hdrawn with rfl | rfl
      · exact .inl (Package.mem_names_of_requireXml hread)
      · rw [hpath]
        exact .inr (PartPath.extension?_relationshipsOf _)

/-- A pass over a closed package starts closed. -/
private theorem closed_startPass {s : Session} (hs : s.Closed) {selector : SheetSelector} {p : Pass}
    (h : s.startPass selector = .ok p) : p.Closed p := by
  have htouched : ∀ part ∈ p.touched, _ := fun part => touched_startPass h
  obtain ⟨info, sheet, tables, drawing, -, -, -, -, rfl⟩ := startPass_eq_ok h
  refine ⟨List.Subset.refl _, fun _ hpart => hpart, hs.rels, fun e he => ?_,
    fun part hpart hne => ?_⟩
  · obtain ⟨part, hpart, hname⟩ := hs.closes.overrides e he
    exact ⟨part, hname, .inl hpart⟩
  · rcases hpart.imp_right (htouched part) with hpart | hpart | hpart
    · exact hs.closes.parts part hpart hne
    · exact hs.closes.parts part hpart hne
    · exact ContentTypes.covers_of_hasDefault hs.rels hpart

variable {options : FillOptions} {files : ImageFiles} {values : Substitutions}

/-- A session during a pass is closed with the parts of the pass. -/
private theorem closed_during {s : Session} (hs : s.Closed) {selector : SheetSelector} {p q : Pass}
    (hstart : s.startPass selector = .ok p) (hrun : p.run options files values = .ok q)
    (hknown : (s.during q).StringsKnown) : (s.during q).Closed := by
  have hp := closed_startPass hs hstart
  obtain ⟨info, sheet, tables, drawing, -, -, -, -, rfl⟩ := startPass_eq_ok hstart
  obtain ⟨hcloses, hrels, hnames⟩ := Pass.closes_of_run hp hrun
  obtain ⟨hpath, hworkbookRels⟩ := Pass.workbook_of_run hrun
  refine ⟨hknown, hcloses, hrels, ?_, ?_, fun hexisted => hnames (hs.strings hexisted), ?_⟩
  · show q.workbook.rels.path = PartPath.relationshipsOf q.workbook.path
    rw [hpath, hworkbookRels]
    exact hs.relsPath
  · show q.workbook.path ∈ q.package.names
    rw [hpath]
    exact hnames hs.workbook
  · show ∀ chain, q.workbook.linked? "calcChain" = some chain → chain ≠ q.workbook.path ∧ _
    unfold Workbook.linked?
    rw [hpath, hworkbookRels]
    exact hs.chain

/-- The shared strings are written to a part that the package has. -/
private theorem names_write {s : Session} (hs : s.Closed) :
    (s.strings.write s.package).names ⊆ s.package.names := by
  intro part hpart
  unfold SharedStrings.write at hpart
  split at hpart
  · rename_i hwritten
    -- The part with the shared strings is written only if it was there, or if there are strings to
    -- write.
    rcases Package.mem_names_set.1 hpart with rfl | hpart
    · refine hs.strings ?_
      rcases hs.known with hexisted | hempty
      · exact hexisted
      · simpa [SharedStrings.isWritten, hempty] using hwritten
    · exact hpart
  · exact hpart

/-- Writing the shared strings removes no part. -/
private theorem subset_names_write (s : Session) :
    s.package.names ⊆ (s.strings.write s.package).names := by
  intro part hpart
  unfold SharedStrings.write
  split
  · exact Package.mem_names_set.2 (.inr hpart)
  · exact hpart

/-- The parts of a package after the workbook and the content types were written. -/
private theorem mem_names_saved {w : Workbook} {t : ContentTypes} {p : Package} {part : String} :
    part ∈ (t.save (w.save p)).names ↔
      part = Package.contentTypesPart ∨ part = w.rels.path ∨ part = w.path ∨ part ∈ p.names := by
  simp [ContentTypes.save, Workbook.save, Relationships.save, Package.setXml]

/-- The workbook is written over a part that is covered, and its relationships are. -/
private theorem closes_saved {w : Workbook} {t : ContentTypes} {p : Package} (h : t.Closes p)
    (hrels : t.hasDefault "rels" = true)
    (hpath : w.rels.path = PartPath.relationshipsOf w.path) (hworkbook : w.path ∈ p.names) :
    t.Closes (t.save (w.save p)) := by
  refine ⟨fun e he => ?_, fun part hpart hne => ?_⟩
  · obtain ⟨part, hpart, hname⟩ := h.overrides e he
    exact ⟨part, mem_names_saved.2 (.inr (.inr (.inr hpart))), hname⟩
  · rcases mem_names_saved.1 hpart with rfl | rfl | rfl | hpart
    · exact absurd rfl hne
    · rw [hpath]
      exact ContentTypes.covers_of_hasDefault hrels (PartPath.extension?_relationshipsOf _)
    · exact h.parts _ hworkbook hne
    · exact h.parts part hpart hne

/-- A part and its content type are taken away together. -/
private theorem closes_remove {t : ContentTypes} {p : Package} (h : t.Closes p) (name : String) :
    (t.removeOverride ("/" ++ name)).Closes (p.remove name) := by
  refine ⟨fun e he => ?_, fun part hpart hne => ?_⟩
  · obtain ⟨he, hother⟩ := ContentTypes.mem_removeOverride he
    obtain ⟨part, hpart, hname⟩ := h.overrides e he
    refine ⟨part, Package.mem_names_remove.2 ⟨hpart, ?_⟩, hname⟩
    rintro rfl
    exact hother hname
  · obtain ⟨hpart, hother⟩ := Package.mem_names_remove.1 hpart
    exact (h.parts part hpart hne).removeOverride hother

/-- A type that is removed is not found any more. -/
private theorem ofType?_removeType_self (r : Relationships) (suffix : String) :
    (r.removeType suffix).ofType? suffix = none := by
  refine List.find?_eq_none.2 fun rel hrel htype => ?_
  rw [Relationships.toList, Relationships.removeType, Relationships.mapRoot, Element.named,
    Element.elements_removeWhere, List.filter_filter] at hrel
  have := (List.mem_filter.1 hrel).2
  simp [htype] at this

/-- What is written back at the end of a call is closed. -/
private theorem closed_written {s : Session} (hs : s.Closed) :
    (s.written s.workbook.rels s.types).Closed := by
  have hnames : ∀ part, part ∈ (s.strings.write s.package).names ↔ part ∈ s.package.names :=
    fun part => ⟨fun h => names_write hs h, fun h => subset_names_write s h⟩
  have hwritten : s.types.Closes (s.strings.write s.package) := by
    refine ⟨fun e he => ?_, fun part hpart hne => ?_⟩
    · obtain ⟨part, hpart, hname⟩ := hs.closes.overrides e he
      exact ⟨part, (hnames part).2 hpart, hname⟩
    · exact hs.closes.parts part ((hnames part).1 hpart) hne
  have hworkbook := (hnames _).2 hs.workbook
  unfold written Workbook.dropCalcChain
  dsimp only
  cases hchain : Workbook.linked? { s.workbook with rels := s.workbook.rels } "calcChain" with
  -- Without an order of calculation only the parts of the workbook are written.
  | none =>
    refine ⟨hs.known, closes_saved hwritten hs.rels hs.relsPath hworkbook, hs.rels, hs.relsPath,
      mem_names_saved.2 (.inr (.inr (.inl rfl))), fun hexisted => ?_, fun chain h => ?_⟩
    · exact mem_names_saved.2 (.inr (.inr (.inr ((hnames _).2 (hs.strings hexisted)))))
    · exact absurd (h.symm.trans hchain) (by simp)
  | some chain =>
    obtain ⟨hother, hstrings⟩ := hs.chain chain hchain
    -- With one, its part is removed together with its override; all others are kept.
    have hkept : ∀ part ∈ s.package.names, chain ≠ part →
        part ∈ ((s.strings.write s.package).remove chain).names := fun part hpart hne =>
      Package.mem_names_remove.2 ⟨(hnames part).2 hpart, Ne.symm hne⟩
    have hrels : (s.types.removeOverride ("/" ++ chain)).hasDefault "rels" = true := by
      rw [ContentTypes.hasDefault_removeOverride]
      exact hs.rels
    refine ⟨hs.known, closes_saved (closes_remove hwritten chain) hrels hs.relsPath
      (hkept _ hs.workbook hother), hrels, hs.relsPath, mem_names_saved.2 (.inr (.inr (.inl rfl))),
      fun hexisted => ?_, fun chain' h => ?_⟩
    · exact mem_names_saved.2 (.inr (.inr (.inr
        (hkept _ (hs.strings hexisted) (hstrings hexisted)))))
    · -- There is no order of calculation any more.
      rw [Workbook.linked?, Workbook.requestCalculation, ofType?_removeType_self] at h
      cases h

/-- A call that succeeds leaves the package closed. -/
theorem closed_of_fill {s next : Session} (hs : s.Closed) {selector : SheetSelector}
    {report : Report} (h : s.fill options files selector values = (next, report))
    (hreport : report.failure = none) :
    next.Closed ∧ next.package.get? Package.contentTypesPart = some next.types.doc.toBytes := by
  obtain ⟨p, q, hstart, hrun, rfl, hknown⟩ := written_of_fill hs.known h hreport
  exact ⟨closed_written (closed_during hs hstart hrun hknown), Package.get?_set_self ..⟩

variable (options files) in
/-- Content types that close a package close it after any calls, whatever comes of each: those that
the session holds, which are the ones in the package, and where parts use names of XML also those
that are read from there. This takes a default for relationships, and an order of calculation in a
part that no other relationship leads to and that is not the one of the workbook. -/
theorem content_types_stay_closed {package : Package} {first : Session}
    (hopen : ofPackage package = .ok first) (hcloses : first.types.Closes package)
    (hrels : first.types.hasDefault "rels" = true) (hapart : package.ChainApart first.workbook)
    (hworkbook : first.workbook.linked? "calcChain" ≠ some first.workbook.path)
    (calls : List FillCall) :
    (first.fillCalls options files calls).1.types.Closes
        (first.fillCalls options files calls).1.package ∧
      (ContentTypes.load (first.fillCalls options files calls).1.package =
          .ok (first.fillCalls options files calls).1.types ∨
        (first.fillCalls options files calls).1.package.get? Package.contentTypesPart =
          some (first.fillCalls options files calls).1.types.doc.toBytes) ∧
      (package.UsesNames → ∃ types : ContentTypes,
        ContentTypes.load (first.fillCalls options files calls).1.package = .ok types ∧
          types.Closes (first.fillCalls options files calls).1.package) := by
  have hfirst := closed_ofPackage hopen hcloses hrels hapart hworkbook
  have hload := (ofPackage_eq_ok.1 hopen).2.2.1
  have hpackage := (ofPackage_eq_ok.1 hopen).2.2.2
  -- The content types are in the package from the first call that succeeds on.
  obtain ⟨hlast, hheld⟩ := fillCalls_keep options files
    (I := fun s => s.Closed ∧ (ContentTypes.load s.package = .ok s.types ∨
      s.package.get? Package.contentTypesPart = some s.types.doc.toBytes))
    (fun s next selector values report hs h hreport =>
      (closed_of_fill hs.1 h hreport).imp_right .inr) ⟨hfirst, .inl (hpackage ▸ hload)⟩ calls
  refine ⟨hlast.closes, hheld, fun hnames => ?_⟩
  have hsound := fillCalls_keep options files (I := Sound)
    (fun s next selector values report hs h hreport => (stored_of_fill hs h hreport).1)
    (sound_ofPackage hnames hopen) calls
  rcases hheld with hload | hget
  · exact ⟨_, hload, hlast.closes⟩
  · exact ⟨_, map_eq_ok.2 ⟨_, Package.requireXml_of_get? hget hsound.types.root.left, rfl⟩,
      hlast.closes.tidy hsound.types⟩

/-- The documents of a workbook whose content types are closed, with the order of calculation in a
part beside the workbook. -/
def closedDocuments (chain : String) : List (String × Document) :=
  let listed := fun (name id : String) =>
    ({ name := "sheet", attributes := [("name", name), ("r:id", id)] } : Element)
  let override := fun part : String =>
    ({ name := "Override", attributes := [("PartName", part), ("ContentType", "x")] } : Element)
  [(Package.contentTypesPart, { root := .ofChildren "Types" [] [
      { name := "Default", attributes := [("Extension", "RELS"), ("ContentType", "x")] },
      override "/xl/workbook.xml", override "/xl/plan.xml", override "/xl/strings.xml",
      override "/xl/order.xml"] }),
    ("xl/workbook.xml", { root := .ofChildren "workbook" [] [
      .ofChildren "sheets" [] [listed "Plan" "plan"]] }),
    ("xl/_rels/workbook.xml.rels", { root := .ofChildren "Relationships" [] [
      workbookLink "plan" "worksheet" "plan.xml",
      workbookLink "strings" "sharedStrings" "strings.xml",
      workbookLink "order" "calcChain" chain] }),
    ("xl/plan.xml", { root := .ofChildren "worksheet" [] [.ofChildren "sheetData" [] [
      .ofChildren "row" [("r", "1")] [
        .ofChildren "c" [("r", "A1"), ("t", "s")] [.ofText "v" "0"]]]] }),
    ("xl/strings.xml", { root := .ofChildren "sst" [] [.ofChildren "si" [] [.ofText "t" "${x}"]] }),
    ("xl/order.xml", { root := { name := "calcChain" } })]

/-- In these documents only the workbook has relationships. -/
private theorem chainApart_closed {chain : String}
    (h : ∀ part ∈ closedDocuments chain, part.2.Writable ∧ part.2.tidy = part.2)
    (hchain : ∀ rel ∈ (ofDocuments (closedDocuments chain)).workbook.rels.toList,
      (rel.attr? "Target").map (PartPath.resolve "xl/workbook.xml") =
        (ofDocuments (closedDocuments chain)).workbook.linked? "calcChain" →
      Relationships.hasType "calcChain" rel = true) :
    (Package.ofDocuments (closedDocuments chain)).ChainApart
      (ofDocuments (closedDocuments chain)).workbook := by
  intro target htarget owner rels hload rel hrel hresolve
  obtain ⟨-, hread⟩ := Relationships.load?_eq_some.1 hload
  -- Only one name has the extension of relationships.
  have hname : PartPath.relationshipsOf owner = PartPath.relationshipsOf "xl/workbook.xml" := by
    have hnames : ∀ name ∈ ["[Content_Types].xml", "xl/workbook.xml", "xl/_rels/workbook.xml.rels",
        "xl/plan.xml", "xl/strings.xml", "xl/order.xml"],
        PartPath.extension? name = some "rels" →
          name = PartPath.relationshipsOf "xl/workbook.xml" := by decide +kernel
    exact hnames _ (Package.mem_names_of_requireXml hread) (PartPath.extension?_relationshipsOf _)
  obtain rfl := PartPath.eq_of_relationshipsOf hname (by decide)
  have hdoc := Package.requireXml_ofDocuments h
    (show (closedDocuments chain).lookup (PartPath.relationshipsOf "xl/workbook.xml") =
      some (ofDocuments (closedDocuments chain)).workbook.rels.doc from rfl)
  rw [hdoc] at hread
  refine ⟨rfl, hchain rel ?_ (hresolve.trans htarget.symm)⟩
  rw [Relationships.toList, Except.ok.inj hread]
  exact hrel

/-- A call that succeeds and drops the order of calculation, and one that fails. -/
theorem content_types_stay_closed_sample :
    ∃ first last reports, ofPackage (.ofDocuments (closedDocuments "order.xml")) = .ok first ∧
      first.fillCalls {} (fun _ => none)
        [⟨.name "Plan", [("x", .text "new")]⟩, ⟨.name "List", []⟩] = (last, reports) ∧
      reports.map (·.failure.isNone) = [true, false] ∧ "xl/order.xml" ∈ first.package.names ∧
      "xl/order.xml" ∉ last.package.names ∧ last.types.Closes last.package := by
  -- The order of calculation is listed, so the first call removes its part and its override.
  have hdocuments : ∀ part ∈ closedDocuments "order.xml",
      part.2.Writable ∧ part.2.tidy = part.2 := by decide +kernel
  have hopen := ofPackage_ofDocuments hdocuments (by decide +kernel) (by decide +kernel)
  have hlast := content_types_stay_closed {} (fun _ => none) hopen (by decide +kernel)
    (by decide +kernel) (chainApart_closed hdocuments (by decide +kernel)) (by decide +kernel)
    [⟨.name "Plan", [("x", .text "new")]⟩, ⟨.name "List", []⟩]
  generalize hcalls : (ofDocuments (closedDocuments "order.xml")).fillCalls {} (fun _ => none)
    [⟨.name "Plan", [("x", .text "new")]⟩, ⟨.name "List", []⟩] = result at hlast
  have hresult : result.2.map (·.failure.isNone) = [true, false] ∧
      "xl/order.xml" ∉ result.1.package.names := by
    rw [← hcalls]
    decide +kernel
  exact ⟨_, result.1, result.2, hopen, hcalls, hresult.1, by decide +kernel, hresult.2, hlast.1⟩

/-- It is not enough that no other relationship leads to the part with the order of calculation. No
relationship leads to a workbook that is where workbooks are by default. If the order of calculation
is said to be in its part, the content type of the workbook is taken away and the workbook is
not. -/
theorem calc_chain_takes_content_type :
    ¬∀ (options : FillOptions) (files : ImageFiles) (package : Package) (first : Session)
        (calls : List FillCall), ofPackage package = .ok first → first.types.Closes package →
      first.types.hasDefault "rels" = true → package.ChainApart first.workbook →
      (first.fillCalls options files calls).1.types.Closes
        (first.fillCalls options files calls).1.package := by
  intro hall
  have hdocuments : ∀ part ∈ closedDocuments "workbook.xml",
      part.2.Writable ∧ part.2.tidy = part.2 := by decide +kernel
  have hopen := ofPackage_ofDocuments hdocuments (by decide +kernel) (by decide +kernel)
  have hcloses := hall {} (fun _ => none) _ _ [⟨.name "Plan", [("x", .text "new")]⟩] hopen
    (by decide +kernel) (by decide +kernel) (chainApart_closed hdocuments (by decide +kernel))
  revert hcloses
  decide +kernel

end Session

end SheetTemplate
