import SheetTemplate.Proofs.DeclaredPrefixes
import SheetTemplate.Proofs.RowContents
import SheetTemplate.Proofs.SheetRun
import SheetTemplate.Proofs.UntouchedParts

/-!
# The prefixes that a pass writes

Nearly all that a pass adds to a part has names without a prefix, or with one that the part has
already. There are two exceptions. The link of a drawing that is begun has the prefix `r`, which the
root of the sheet may not declare, and the pictures of a drawing have parts with the prefix `a`,
which the root of a drawing that was there before may not declare. `TakenForGranted` lists these;
all other prefixes are declared after a pass if they were before.

A row may declare prefixes for its cells. They stay on the rows that come from it, and its cells
stay on these, so cells and rows are followed by one rule for each row.

## Key results

- `scoped_of_run`: the parts that a pass writes
- `prefixes_declared`: the package after a call
-/

namespace SheetTemplate

open Fill (Pass)
open Xml (Document Element Node IsPlain NameIn usedPrefix? nameIn_of_plain)

/-! ### Packages -/

namespace Package

/-- A package in which every part that is markup declares all its prefixes. -/
def Declared (p : Package) : Prop := ∀ name d, p.requireXml name = .ok d → d.Declared

/-- After a part is set, every part is an old one or the one that was set. -/
theorem mem_entries_set {p : Package} {name : String} {bytes : ByteArray}
    {part : String × ByteArray} (h : part ∈ (p.set name bytes).entries) :
    part ∈ p.entries ∨ part = (name, bytes) := by
  obtain ⟨entries⟩ := p
  unfold set at h
  dsimp only at h ⊢
  -- Along the entries, up to the one of the name: it is replaced, and without one the part goes to
  -- the end.
  induction entries with
  | nil => exact .inr (List.mem_singleton.1 h)
  | cons first r ih =>
    rw [Keyed.set] at h
    split at h
    · rename_i hname
      rcases List.mem_cons.1 h with rfl | h
      · exact .inr (by rw [hname])
      · exact .inl (List.mem_cons_of_mem _ h)
    · rcases List.mem_cons.1 h with rfl | h
      · exact .inl List.mem_cons_self
      · exact (ih h).imp_left (List.mem_cons_of_mem _)

/-- The same for a list of parts. -/
theorem mem_entries_store {p : Package} {parts : List (String × ByteArray)}
    {part : String × ByteArray} (h : part ∈ (p.store parts).entries) :
    part ∈ p.entries ∨ part ∈ parts := by
  induction parts generalizing p with
  | nil => exact .inl h
  | cons first parts ih =>
    rcases ih (p := p.set first.1 first.2) h with hset | hmem
    · rcases mem_entries_set hset with hold | rfl
      · exact .inl hold
      · exact .inr List.mem_cons_self
    · exact .inr (List.mem_cons_of_mem _ hmem)

end Package

/-! ### Parts that all sheets share -/

namespace Relationships

/-- A new list of relationships declares what it uses. -/
theorem declared_empty (path : String) : (empty path).doc.Declared :=
  Element.declaredIn_of_plain ["Relationships", "xmlns"] rfl (by decide) nofun

/-- A relationship that is added has no prefix. -/
theorem declared_add {r r' : Relationships} {type target id : String}
    (h : r.add type target = .ok (r', id)) (hr : r.doc.Declared) : r'.doc.Declared := by
  obtain ⟨-, rfl⟩ := add_eq_ok h
  exact Element.DeclaredIn.push hr
    (Element.declaredIn_of_plain ["Relationship", "Id", "Type", "Target"] rfl (by decide) nofun)

end Relationships

namespace ContentTypes

variable {c : ContentTypes} (h : c.doc.Declared)

include h

/-- A default that is added has no prefix. -/
theorem declared_ensureDefault (extension type : String) :
    (c.ensureDefault extension type).doc.Declared := by
  unfold ensureDefault
  split
  · exact h
  · exact Element.DeclaredIn.insert h _
      (Element.declaredIn_of_plain ["Default", "Extension", "ContentType"] rfl (by decide) nofun)

/-- Neither has an override. -/
theorem declared_ensureOverride (part type : String) :
    (c.ensureOverride part type).doc.Declared := by
  unfold ensureOverride
  split
  · exact h
  · exact Element.DeclaredIn.push h
      (Element.declaredIn_of_plain ["Override", "PartName", "ContentType"] rfl (by decide) nofun)

end ContentTypes

/-- Moving a defined name changes the text of its node only. -/
private theorem declaredIn_moveName {name : Element} {scope : List String}
    (h : name.DeclaredIn scope) (rule : RangeRef → Option RangeRef) :
    (Layout.moveName rule name).DeclaredIn scope := by
  unfold Layout.moveName
  split
  · exact h.setText _
  · exact h

/-- So the workbook uses no other prefixes after its names have moved. -/
private theorem Workbook.declared_mapNames {w : Workbook} (h : w.doc.Declared)
    (rule : RangeRef → Option RangeRef) : (w.mapNames (Layout.moveName rule)).doc.Declared :=
  Element.DeclaredIn.mapChild h _ fun _ hnames => hnames.mapNamed _ fun _ hname =>
    declaredIn_moveName hname rule

namespace SharedStrings

/-- Shared strings that declare their prefixes: in the root, and in each entry as it was read. -/
structure Declared (s : SharedStrings) : Prop where
  root : s.root.DeclaredIn []
  read : ∀ x ∈ s.read, x.2.DeclaredIn s.root.declared

/-- The entry written for a text has no prefix at all. -/
private theorem declaredIn_newEntry (text : String) (scope : List String) :
    (newEntry text).DeclaredIn scope := by
  refine Element.declaredIn_of_plain ["si"] rfl (by decide) fun c hc => ?_
  rw [List.mem_singleton.1 hc]
  exact Element.declaredIn_of_plain ["t", "xml:space"] rfl (by decide) nofun

/-- Entries that were read are kept as they are, the others are new. -/
private theorem declaredIn_entries {scope : List String} {read : List (String × Element)}
    (h : ∀ x ∈ read, x.2.DeclaredIn scope) (texts : List String) :
    ∀ e ∈ entries read texts, e.DeclaredIn scope := by
  -- Texts and entries read are gone through together; a slot whose text is still the one read keeps
  -- its entry.
  induction texts generalizing read with
  | nil => cases read <;> exact nofun
  | cons text texts ih =>
    cases read with
    | nil => exact List.forall_mem_cons.2 ⟨declaredIn_newEntry text scope, ih h⟩
    | cons x read =>
      obtain ⟨hx, hread⟩ := List.forall_mem_cons.1 h
      refine List.forall_mem_cons.2 ⟨?_, ih hread⟩
      split
      · exact hx
      · exact declaredIn_newEntry text scope

/-- The shared strings are written with their entries under the root they were read with. -/
theorem Declared.document {s : SharedStrings} (h : s.Declared) (table : StringTable) :
    ({ s with table } : SharedStrings).document.Declared := by
  refine (Element.DeclaredIn.setAttr ?_ (by decide) _).setAttr (by decide) _
  refine h.root.pushAll (declaredIn_entries (fun x hx => ?_) _)
  rw [List.append_nil]
  exact h.read x hx

/-- A list of shared strings that is begun declares what it uses. -/
theorem declared_empty (path : String) : (empty path).Declared :=
  ⟨Element.declaredIn_of_plain ["sst", "xmlns"] rfl (by decide) nofun, nofun⟩

/-- One that is read from a document declares what the document does. -/
theorem declared_ofDocument (path : String) {d : Document} (h : d.Declared) :
    (ofDocument path d).Declared := by
  refine ⟨Element.DeclaredIn.removeWhere h _, List.forall_mem_map.2 fun e he => ?_⟩
  have := Element.DeclaredIn.named h he
  rwa [List.append_nil] at this

end SharedStrings

/-! ### Cells and rows -/

namespace Fill

open Layout (RowShift)

section

variable {c : Element} {scope : List String} (h : c.DeclaredIn scope)

include h

/-- Cells have their contents written without a prefix: a slot number or a value. -/
private theorem declaredIn_setShown (text : String) : (setShown c text).DeclaredIn scope := by
  unfold setShown
  split
  · exact h.mapChild "v" fun _ hv => hv.setText text
  · exact h.push (Element.declaredIn_ofText (by decide) _)

/-- Likewise a formula. -/
private theorem declaredIn_insertFormula (expression : String) :
    (insertFormula c expression).DeclaredIn scope :=
  (((h.removeAttr (by decide)).removeWhere _).removeWhere _).insert 0
    (Element.declaredIn_ofText (by decide) _)

/-- Taking a cached value away adds no name. -/
private theorem declaredIn_dropCached : (dropCached c).DeclaredIn scope := by
  unfold dropCached
  split
  · exact h.removeWhere _
  · exact h

/-- A moved region has new text in its attribute, and no new name. -/
private theorem declaredIn_moveRef (rule : RangeRef → Option RangeRef) :
    (Layout.moveRef rule c).DeclaredIn scope := by
  unfold Layout.moveRef
  split
  · exact h.setAttr (by decide) _
  · exact h

end

/-- Rows that declare the same prefixes, with cells that are declared on them. -/
private def declaredRows (declared scope : List String) : RowRule where
  cell c := c.DeclaredIn (declared ++ scope)
  row e := e.DeclaredIn scope ∧ e.declared = declared
  setAttr value hkey h := h.setAttr (by rcases hkey with rfl | rfl <;> decide) value
  removeType h := h.removeAttr (by decide)
  clear h := h.shallow
  setShown text h := declaredIn_setShown h text
  insertFormula expression h := declaredIn_insertFormula h expression
  row_setAttr value hkey h :=
    have hplain := by rcases hkey with rfl | rfl <;> decide
    ⟨h.1.setAttr hplain value, (Element.declared_setAttr hplain value).trans h.2⟩
  row_shallow h := ⟨h.1.shallow, h.2⟩
  row_removeElements h := ⟨h.1.removeWhere _, h.2⟩
  row_pushAll h hcells := ⟨h.1.pushAll fun c hc => h.2.symm ▸ hcells c hc, h.2⟩
  cells h c hc := h.2 ▸ h.1.child hc

/-! ### Sheets -/

/-- Regions moved to the right are rewritten in their attribute. -/
private theorem declaredIn_shiftMergesRight {sheet : Element} {scope : List String}
    (h : sheet.DeclaredIn scope) (anchor : CellRef) (cols : Int) :
    (Layout.shiftMergesRight anchor cols sheet).DeclaredIn scope :=
  h.mapChild _ fun _ hmerges => hmerges.mapNamed _ fun _ hmerge => declaredIn_moveRef hmerge _

/-- So are regions moved down; their clones are written after them. -/
private theorem declaredIn_shiftMerges {merges : Element} {scope : List String}
    (h : merges.DeclaredIn scope) (s : RowShift) : (s.shiftMerges merges).DeclaredIn scope := by
  -- A clone is the region's own element without its children, and its attribute is written anew.
  have hclones : ∀ c ∈ (merges.named "mergeCell").flatMap s.clones,
      c.DeclaredIn (merges.declared ++ scope) := by
    intro c hc
    obtain ⟨merge, hmerge, hc⟩ := List.mem_flatMap.1 hc
    unfold RowShift.clones at hc
    split at hc
    · split at hc
      · obtain ⟨k, -, rfl⟩ := List.mem_map.1 hc
        exact (h.named hmerge).shallow.setAttr (by decide) _
      · cases hc
    · cases hc
  exact ((h.mapNamed _ fun _ hmerge => declaredIn_moveRef hmerge _).pushAll hclones).setAttr
    (by decide) _

/-- A page break that moves has two attributes rewritten. -/
private theorem declaredIn_shiftBreak {brk : Element} {scope : List String}
    (h : brk.DeclaredIn scope) (s : RowShift) : (s.shiftBreak brk).DeclaredIn scope := by
  unfold RowShift.shiftBreak
  split
  · split
    · exact h.setAttr (by decide) _
    · exact h
  · exact h

/-- Rows moved down change regions and breaks and nothing else of the sheet. -/
private theorem declaredIn_shiftSheet {sheet : Element} {scope : List String}
    (h : sheet.DeclaredIn scope) (s : RowShift) : (s.shiftSheet sheet).DeclaredIn scope := by
  have hmerges := h.mapChild "mergeCells" fun _ hmerges => declaredIn_shiftMerges hmerges s
  unfold RowShift.shiftSheet
  split
  · exact h
  · unfold RowShift.shiftBreaks
    split
    · exact hmerges.mapChild _ fun _ hbreaks => hbreaks.mapNamed _ fun _ hbrk =>
        declaredIn_shiftBreak hbrk s
    · exact hmerges

/-- The root itself is not touched, so that it declares what it did. -/
private theorem declared_shiftSheet (sheet : Element) (s : RowShift) :
    (s.shiftSheet sheet).declared = sheet.declared := by
  unfold RowShift.shiftSheet RowShift.shiftBreaks
  split
  · rfl
  · split <;> rfl

/-- The link of a drawing is all that has a prefix. -/
private theorem declaredIn_attachDrawing {w : Worksheet} {scope : List String}
    (h : w.doc.root.DeclaredIn scope) (id : String) (hr : "r" ∈ scope) :
    (w.attachDrawing id).doc.root.DeclaredIn scope := by
  refine h.insert _ (Element.declaredIn_iff.2 ⟨fun p hp => ?_, nofun⟩)
  have hused : p ∈ ["r"] := by
    rwa [show Element.used { name := "drawing", attributes := [("r:id", id)] } = ["r"] from
      (by decide : ["drawing", "r:id"].filterMap usedPrefix? = ["r"])] at hp
  rw [List.mem_singleton.1 hused]
  exact List.mem_append_right _ (List.mem_append_right _ hr)

/-- The dimension is one attribute. -/
private theorem declaredIn_extendDimension {sheet : Element} {scope : List String}
    (h : sheet.DeclaredIn scope) (cols : Int) (rows : Nat) :
    (extendDimension cols rows sheet).DeclaredIn scope := by
  unfold extendDimension
  split
  · exact h
  · exact h.mapChild _ fun _ hdimension => declaredIn_moveRef hdimension _

/-- Dropping cached values takes elements away. -/
private theorem declaredIn_dropCachedValues {sheet : Element} {scope : List String}
    (h : sheet.DeclaredIn scope) : (dropCachedValues sheet).DeclaredIn scope :=
  h.mapChild _ fun _ hdata => hdata.mapNamed _ fun _ hrow => hrow.mapNamed _ fun _ hcell =>
    declaredIn_dropCached hcell

/-- A link that is filled in is one attribute of its relationship. -/
private theorem declared_fillLinks {rels : Relationships} (h : rels.doc.Declared)
    (values : Substitutions) :
    (rels.mapRoot (·.mapNamed "Relationship" (fillLink values))).doc.Declared := by
  refine Element.DeclaredIn.mapNamed h _ fun rel hrel => ?_
  unfold fillLink
  split
  · split
    · exact hrel.setAttr (by decide) _
    · exact hrel
  · exact hrel

/-! ### Tables -/

/-- The range of a table stands in attributes. -/
private theorem declared_setRange {t : Table} (h : t.doc.Declared) (range : RangeRef) :
    (t.setRange range).doc.Declared :=
  (Element.DeclaredIn.mapChild h _ fun _ hfilter => hfilter.setAttr (by decide) _).setAttr
    (by decide) _

/-- So a table that moves uses the names that it used. -/
private theorem declared_shiftTable {t : Table} (h : t.doc.Declared) (s : RowShift) :
    (s.shiftTable t).doc.Declared := by
  unfold RowShift.shiftTable
  split
  · exact h
  · split
    · exact declared_setRange h _
    · exact h

/-- Likewise one that is extended. -/
private theorem declared_extendTable {t : Table} (h : t.doc.Declared) (cell : CellRef) :
    (extendTable cell t).doc.Declared := by
  unfold extendTable
  split
  · split
    · exact h
    · exact declared_setRange h _
  · exact h

/-- The header of a column is filled in in an attribute. -/
private theorem declared_fillHeaders {t : Table} (h : t.doc.Declared) (values : Substitutions) :
    (t.mapColumns (fillHeader values)).doc.Declared := by
  refine Element.DeclaredIn.mapChild h _ fun _ hcols => hcols.mapNamed _ fun column hcolumn => ?_
  unfold fillHeader
  split
  · exact hcolumn.setAttr (by decide) _
  · exact hcolumn

end Fill

/-! ### Drawings -/

namespace Drawing

/-- A name with the namespace of the root has the prefix of the root, if it has one. -/
private theorem nameIn_qualified {d : Drawing} {scope : List String}
    (h : NameIn d.doc.root.name scope) {name : String} (hname : usedPrefix? name = none) :
    NameIn (d.qualified name) scope := by
  unfold qualified
  -- The root may have no prefix, an empty one or one before its first colon; only the last is
  -- written again.
  split
  · exact nameIn_of_plain hname scope
  · exact nameIn_of_plain hname scope
  · rename_i q after hempty hcut
    have hroot : usedPrefix? (String.ofList q ++ ":" ++ name) = usedPrefix? d.doc.root.name := by
      rw [usedPrefix?, usedPrefix?, hcut, String.toList_append, String.toList_append,
        String.toList_ofList, List.append_assoc,
        show ":".toList ++ name.toList = ':' :: name.toList from rfl,
        Text.cutFirst?_append _ (Text.cutFirst?_eq_some hcut).2]
    rw [NameIn, hroot]
    exact h

/-- The link of a picture declares its own prefix, but relies on the one of its name. -/
private theorem declaredIn_blip (scope : List String) (h : "a" ∈ scope) (link : String) :
    (Element.ofChildren "a:blip" [("xmlns:r", xmlnsRelationships), ("r:embed", link)] []).DeclaredIn
      scope := by
  refine Element.declaredIn_iff.2 ⟨fun p hp => ?_, nofun⟩
  have hused : p ∈ ["a", "r"] :=
    (by decide +kernel : ["a:blip", "xmlns:r", "r:embed"].filterMap usedPrefix? = ["a", "r"]) ▸ hp
  have hdeclared : "r" ∈ (Element.ofChildren "a:blip"
      [("xmlns:r", xmlnsRelationships), ("r:embed", link)] []).declared :=
    (by decide +kernel : "r" ∈ ["xmlns:r", "r:embed"].filterMap Xml.declaredPrefix?)
  rcases List.mem_cons.1 hused with rfl | hused
  · exact List.mem_append_right _ h
  · exact List.mem_append_left _ (List.mem_singleton.1 hused ▸ hdeclared)

/-- A picture has parts with the prefix of the root and parts with the prefix `a`. -/
private theorem declaredIn_pictureAnchor {d : Drawing} {scope : List String}
    (h : NameIn d.doc.root.name scope) (ha : "a" ∈ scope) (shapeId col row : Nat)
    (extent : Image.Extent) (link : String) :
    (d.pictureAnchor shapeId col row extent link).DeclaredIn scope := by
  have hq : ∀ {name : String}, usedPrefix? name = none → NameIn (d.qualified name) scope :=
    nameIn_qualified h
  have hmain : ∀ {name : String}, usedPrefix? name = some "a" → NameIn name scope :=
    fun hname p hp => by rw [hname] at hp; cases hp; exact ha
  have hblip := declaredIn_blip scope ha link
  simp (disch := first | decide | simp +decide) [pictureAnchor, Element.declaredIn_ofChildren_iff,
    Element.declaredIn_ofText_iff, hq, hmain, hblip]

/-- A picture that is added needs the prefix of the root and the one of the graphics. -/
theorem declaredIn_addPicture {d : Drawing} {scope : List String}
    (h : d.doc.root.DeclaredIn scope) (ha : "a" ∈ scope) (col row : Nat) (extent : Image.Extent)
    (link : String) : (d.addPicture col row extent link).doc.root.DeclaredIn scope :=
  h.push (declaredIn_pictureAnchor h.nameIn (List.mem_append_right _ ha) _ _ _ _ _)

/-- Moving a marker changes the text of its row. -/
private theorem declaredIn_moveMarker {anchor : Element} {scope : List String}
    (h : anchor.DeclaredIn scope) (rows : Nat) (marker : String) :
    (moveMarker rows marker anchor).DeclaredIn scope :=
  h.mapFirst _ fun _ hm => hm.mapFirst _ fun _ hrow => hrow.setText _

/-- Moving anchors rewrites markers only, whichever anchors are in the limit and below the row. -/
private theorem declaredIn_moveNodes {scope : List String} {nodes : List Node}
    (h : ∀ e ∈ nodes.filterMap Node.element?, e.DeclaredIn scope) (row rows : Nat)
    (sameLine : Bool) (limit : Nat) :
    ∀ e ∈ (moveNodes row rows sameLine limit nodes).filterMap Node.element?,
      e.DeclaredIn scope := by
  -- Along the nodes; the limit counts anchors, so nodes that are none do not lower it.
  induction nodes generalizing limit with
  | nil => cases limit <;> exact nofun
  | cons n r ih =>
    cases limit with
    | zero => exact h
    | succ limit =>
      unfold moveNodes
      cases n with
      | element a =>
        obtain ⟨ha, hr⟩ := List.forall_mem_cons.1 h
        split
        · refine List.forall_mem_cons.2 ⟨?_, ih hr limit⟩
          dsimp only
          split
          · exact declaredIn_moveMarker (declaredIn_moveMarker ha _ _) _ _
          · exact ha
        · exact List.forall_mem_cons.2 ⟨ha, ih hr _⟩
      | text t | cdata t | comment t => exact ih h (limit + 1)

/-- Hence a drawing whose anchors move uses the names that it used. -/
theorem declaredIn_moveAnchors {d : Drawing} {scope : List String}
    (h : d.doc.root.DeclaredIn scope) (row rows : Nat) (sameLine : Bool) (limit : Nat) :
    (d.moveAnchors row rows sameLine limit).doc.root.DeclaredIn scope :=
  h.of_tag rfl rfl (declaredIn_moveNodes (fun _ he => h.child he) row rows sameLine limit)

/-- A drawing that is begun declares what it uses, and the prefix of the graphics with it. -/
theorem declared_empty (path : String) : (empty path).doc.Declared ∧
    "a" ∈ (empty path).doc.root.declared := by
  have hroot : Element.DeclaredIn (empty "").doc.root [] ∧ "a" ∈ (empty "").doc.root.declared := by
    decide +kernel
  exact hroot

end Drawing

/-! ### A pass -/

namespace Fill.Pass

/-- The prefixes that a pass from `p` to `q`, which stores pictures, takes for granted in a part. -/
inductive TakenForGranted (p q : Pass) (pictures : List (String × ByteArray)) :
    String → String → Prop
  /-- A drawing is begun, and its link refers to a relationship. -/
  | link (hnone : p.drawing = none) (hbegun : q.drawing.isSome = true)
      (hr : "r" ∉ p.sheet.doc.root.declared) : TakenForGranted p q pictures p.sheet.path "r"
  /-- Pictures are put into a drawing that was there before. -/
  | picture {d : Drawing} (hd : p.drawing = some d) (hpictures : pictures ≠ [])
      (ha : "a" ∉ d.doc.root.declared) : TakenForGranted p q pictures d.path "a"

/-- The parts of a pass that has stored pictures since it was at `before` declare their prefixes,
but for the prefix of the link of a drawing that was begun, and for that of pictures. -/
structure Scoped (before p : Pass) (pictures : List (String × ByteArray)) : Prop where
  path : p.sheet.path = before.sheet.path
  root : p.sheet.doc.root.declared = before.sheet.doc.root.declared
  sheet : p.sheet.doc.root.DeclaredIn
    (if before.drawing.isNone && p.drawing.isSome then ["r"] else [])
  rels : ∀ r ∈ p.sheet.rels, r.doc.Declared
  tables : ∀ t ∈ p.tables, t.doc.Declared
  drawing : ∀ d ∈ p.drawing, d.doc.root.DeclaredIn (if pictures.isEmpty then [] else ["a"]) ∧
    d.rels.doc.Declared
  /-- A drawing was there before, or it declares the prefix of pictures. -/
  origin : ∀ d ∈ p.drawing, (∃ d₀ ∈ before.drawing, d.path = d₀.path ∧
    d.doc.root.declared = d₀.doc.root.declared) ∨ before.drawing = none ∧ "a" ∈ d.doc.root.declared
  kept : before.drawing.isSome = true → p.drawing.isSome = true
  package : p.package = before.package.store pictures

variable {before p p' : Pass} {pictures : List (String × ByteArray)}

/-- A change that does not concern the drawing. -/
private theorem Scoped.of_sheet (h : Scoped before p pictures)
    (hpath : p'.sheet.path = p.sheet.path)
    (hroot : p'.sheet.doc.root.declared = p.sheet.doc.root.declared)
    (hsheet : ∀ {scope : List String}, p.sheet.doc.root.DeclaredIn scope →
      p'.sheet.doc.root.DeclaredIn scope)
    (hrels : ∀ r ∈ p'.sheet.rels, r.doc.Declared) (htables : ∀ t ∈ p'.tables, t.doc.Declared)
    (hdrawing : p'.drawing = p.drawing) (hpackage : p'.package = p.package) :
    Scoped before p' pictures := by
  refine ⟨hpath.trans h.path, hroot.trans h.root, ?_, hrels, htables, ?_, ?_, ?_,
    hpackage.trans h.package⟩ <;> rw [hdrawing]
  · exact hsheet h.sheet
  · exact h.drawing
  · exact h.origin
  · exact h.kept

/-- Every single change keeps the scopes. A new drawing and a picture need their one prefix more,
which is what the scopes allow for. -/
private theorem scoped_of_change (hchange : Change p p')
    (h : ∃ pictures, Scoped before p pictures) : ∃ pictures, Scoped before p' pictures := by
  obtain ⟨pictures, h⟩ := h
  cases hchange with
  | text | skip | rows => exact ⟨_, h.of_sheet rfl rfl id h.rels h.tables rfl rfl⟩
  | shiftRight anchor cols =>
    exact ⟨_, h.of_sheet rfl rfl (declaredIn_shiftMergesRight · anchor cols) h.rels h.tables rfl
      rfl⟩
  | shiftDown shift =>
    exact ⟨_, h.of_sheet rfl (declared_shiftSheet _ shift) (declaredIn_shiftSheet · shift) h.rels
      (List.forall_mem_map.2 fun t ht => declared_shiftTable (h.tables t ht) shift) rfl rfl⟩
  | extendTables inside cell =>
    refine ⟨_, h.of_sheet rfl rfl id h.rels (List.forall_mem_map.2 fun pair hpair => ?_) rfl rfl⟩
    obtain ⟨t, isParent⟩ := pair
    have ht := h.tables t (List.of_mem_zip hpair).1
    cases isParent with
    | false => exact ht
    | true => exact declared_extendTable ht cell
  | drawing hnone hwith hcreate =>
    obtain ⟨rels, rels', id, hrels, hadd, rfl, rfl, -⟩ := Drawing.create_eq_ok hcreate
    obtain ⟨-, heq, hown⟩ := Worksheet.withRels?_eq_some hwith
    -- A pass never loses its drawing, so there was none at the start.
    have hbefore : before.drawing = none := by
      cases hsome : before.drawing with
      | none => rfl
      | some d => simpa [hnone] using h.kept (by rw [hsome]; rfl)
    have hempty := Drawing.declared_empty ("xl/drawings/" ++ Drawing.newFile p.package)
    refine ⟨pictures, ?_, ?_, ?_, fun r hr => ?_, h.tables, fun d hd => ?_, fun d hd => ?_,
      fun _ => rfl, h.package⟩
    · rw [heq]
      exact h.path
    · rw [heq]
      exact h.root
    · rw [heq, hbefore]
      exact declaredIn_attachDrawing (w := { p.sheet with rels := some rels' })
        (h.sheet.mono (by simp [hnone])) id (by simp)
    · cases hr
      refine Relationships.declared_add hadd ?_
      rcases hown with hsame | ⟨-, hempty⟩
      · exact h.rels rels (hsame ▸ hrels)
      · rw [hrels] at hempty
        cases hempty
        exact Relationships.declared_empty _
    · cases hd
      exact ⟨hempty.1.anywhere _, Relationships.declared_empty _⟩
    · cases hd
      exact .inr ⟨hbefore, hempty.2⟩
  -- The pictures stored so far get one more; the drawing may from here on use the prefix of the
  -- graphics.
  | picture picture col row extent hdrawing hlink =>
    obtain ⟨rels, hadd, rfl⟩ := Drawing.link_eq_ok hlink
    obtain ⟨hroot, hrels⟩ := h.drawing _ hdrawing
    have hsheet := h.sheet
    rw [hdrawing] at hsheet
    refine ⟨pictures ++ [("xl/media/" ++ Drawing.pictureFile p.package picture, picture.bytes)],
      h.path, h.root, hsheet, h.rels, h.tables, fun d hd => ?_,
      fun d hd => ?_, fun _ => rfl, ?_⟩
    · cases hd
      refine ⟨?_, Relationships.declared_add hadd hrels⟩
      rw [if_neg (by simp)]
      exact Drawing.declaredIn_addPicture (hroot.mono (by split <;> simp)) (by simp) ..
    · cases hd
      have horigin := h.origin _ hdrawing
      exact horigin
    · rw [Package.store_append, ← h.package]
      rfl
  | moveAnchors row rows sameLine limit =>
    refine ⟨pictures, h.path, h.root, ?_, h.rels, h.tables, fun d hd => ?_, fun d hd => ?_,
      fun hsome => ?_, h.package⟩
    · rw [Option.isSome_map]
      exact h.sheet
    · obtain ⟨d, hdrawing, rfl⟩ := Option.map_eq_some_iff.1 hd
      exact ⟨Drawing.declaredIn_moveAnchors (h.drawing d hdrawing).1 .., (h.drawing d hdrawing).2⟩
    · obtain ⟨d, hdrawing, rfl⟩ := Option.map_eq_some_iff.1 hd
      exact h.origin d hdrawing
    · rw [Option.isSome_map]
      exact h.kept hsome

/-- Finishing the sheet puts the rows back, whose names are declared by the sheet's data and
root. -/
private theorem scoped_finishSheet (h : Scoped before p pictures)
    (hrows : ∀ data, p.sheet.doc.root.child? "sheetData" = some data →
      ∀ e ∈ p.rows.toList, e.DeclaredIn (data.declared ++ p.sheet.doc.root.declared))
    (given : Given) : Scoped before (p.finishSheet given) pictures := by
  have hroot : (p.finishSheet given).sheet.doc.root.declared = p.sheet.doc.root.declared := by
    show Element.declared (dropCachedValues (extendDimension _ _ _)) = _
    unfold extendDimension
    split <;> rfl
  refine h.of_sheet rfl hroot (fun {scope} hsheet => ?_) (fun r hr => ?_)
    (List.forall_mem_map.2 fun t ht => declared_fillHeaders (h.tables t ht) _) rfl rfl
  · refine declaredIn_dropCachedValues (declaredIn_extendDimension ?_ _ _)
    refine hsheet.mapChild_of_child? _ fun data hdata => ?_
    have hmem : data ∈ p.sheet.doc.root.elements := List.mem_of_find?_eq_some hdata
    refine (hsheet.child hmem).pushAll fun e he => (hrows data hdata e he).mono ?_
    rw [← List.append_assoc]
    exact List.subset_append_left ..
  · obtain ⟨r, hrels, rfl⟩ := Option.map_eq_some_iff.1 hr
    exact declared_fillLinks (h.rels r hrels) _

/-- The rows of a sheet become rows that are declared among the others. -/
private theorem declared_rows {given : Given} {data : Element} {scope : List String}
    (hdata : data.DeclaredIn scope) {previous : Nat}
    (h : fillSourceRows given previous p data.elements = .ok p') :
    ∃ done, p'.rows.toList = p.rows.toList ++ done ∧
      ∀ e ∈ done, e.DeclaredIn (data.declared ++ scope) :=
  RowRule.rows_of_fillSourceRows (fun row hrow =>
    ⟨declaredRows row.declared (data.declared ++ scope), ⟨(hdata.child hrow).removeWhere _, rfl⟩,
      fun _ hc => (hdata.child hrow).child hc, fun _ he => he.1⟩) h

/-- The parts that a pass writes. -/
theorem scoped_of_run {options : FillOptions} {files : ImageFiles} {values : Substitutions}
    {q : Pass} (hfresh : p.Fresh) (hp : Scoped p p [])
    (h : p.run options files values = .ok q) :
    ∃ r pictures, q = r.save ∧ Scoped p r pictures := by
  obtain ⟨r, hfill, rfl⟩ := run_eq_ok h
  have hroot : p.sheet.doc.root.DeclaredIn [] := hp.sheet.mono (by cases p.drawing <;> simp)
  have hbare : Scoped p p.withoutRows [] := hp.of_sheet rfl rfl
    (fun hsheet => hsheet.mapChild _ fun _ hdata => hdata.removeWhere _) hp.rels hp.tables rfl rfl
  obtain ⟨pictures, hscoped⟩ := (changes_of_fillSourceRows hfill).keep
    (I := fun r => ∃ pictures, Scoped p r pictures) (fun _ _ => scoped_of_change) ⟨[], hbare⟩
  obtain ⟨blocks, hrun⟩ := rowsRun_of_fillSourceRows hfill
    (show p.withoutRows.rowsInserted = Text.low32 0 from hfresh.rowsInserted)
  obtain ⟨moves, hmoved⟩ := hrun.shifted
  refine ⟨_, pictures, rfl, scoped_finishSheet hscoped (fun data hdata => ?_) _⟩
  -- The list of rows has the tag of the one before the pass.
  rw [hmoved.data.trans (Element.child?_mapChild_self _ _ Element.name_removeElements)] at hdata
  obtain ⟨source, hsource, rfl⟩ := Option.map_eq_some_iff.1 hdata
  rw [sourceRows, hsource] at hfill
  obtain ⟨done, hdone, hrows⟩ := declared_rows (hroot.child (List.mem_of_find?_eq_some hsource))
    hfill
  rw [hdone, show p.withoutRows.rows = #[] from hfresh.rows, hscoped.root]
  rw [List.append_nil] at hrows
  exact hrows

/-- What is written of the parts of a pass. -/
private theorem Scoped.savedParts {r : Pass} (h : Scoped p r pictures) :
    ∀ part ∈ r.savedParts, ∃ (d : Document) (scope : List String), part.2 = d.toBytes ∧
      d.root.DeclaredIn scope ∧ ∀ x ∈ scope, TakenForGranted p r.save pictures part.1 x := by
  have hwritten : ∀ {name : String} {d : Document}, d.Declared →
      ∃ (d' : Document) (scope : List String), d.toBytes = d'.toBytes ∧ d'.root.DeclaredIn scope ∧
        ∀ x ∈ scope, TakenForGranted p r.save pictures name x :=
    fun {_} {d} hd => ⟨d, [], rfl, hd, nofun⟩
  intro part hpart
  simp only [Pass.savedParts, List.mem_append, List.mem_cons, Option.mem_toList, List.mem_map]
    at hpart
  -- The sheet, its relationships, its tables, and the drawing with its own relationships, in this
  -- order.
  rcases hpart with ((rfl | hrels) | ⟨t, ht, rfl⟩) | hdrawing
  -- Only a drawing that was begun in this pass makes the sheet use a prefix it may not declare.
  · by_cases hbegun : p.drawing = none ∧ r.drawing.isSome = true
    · have hsheet := h.sheet
      rw [if_pos (by simp [hbegun.1, hbegun.2])] at hsheet
      by_cases hr : "r" ∈ p.sheet.doc.root.declared
      · refine hwritten (hsheet.strengthen ?_)
        rw [h.root, List.append_nil]
        simpa using hr
      · refine ⟨_, ["r"], rfl, hsheet, fun x hx => ?_⟩
        rw [List.mem_singleton.1 hx, show r.sheet.path = p.sheet.path from h.path]
        exact .link hbegun.1 hbegun.2 hr
    · refine hwritten (h.sheet.mono ?_)
      rw [if_neg (by simpa using hbegun)]
      exact List.Subset.refl _
  · obtain ⟨rels, hmem, rfl⟩ := Option.map_eq_some_iff.1 hrels
    exact hwritten (h.rels rels hmem)
  · exact hwritten (h.tables t ht)
  · cases hd : r.drawing with
    | none =>
      rw [hd] at hdrawing
      cases hdrawing
    | some d =>
      rw [hd, Option.map_some, Option.getD_some, List.mem_cons, List.mem_singleton] at hdrawing
      obtain ⟨hdoc, hrels⟩ := h.drawing d hd
      rcases hdrawing with rfl | rfl
      -- Without pictures, or with the prefix declared at the root, the drawing has all its
      -- prefixes.
      · by_cases ha : pictures = [] ∨ "a" ∈ d.doc.root.declared
        · refine hwritten (hdoc.strengthen ?_)
          rw [List.append_nil]
          rcases ha with rfl | ha
          · exact List.nil_subset _
          · split <;> simp [ha]
        · obtain ⟨hpictures, ha⟩ := not_or.1 ha
          -- What remains is a drawing that was there before: a begun one declares the prefix.
          obtain ⟨d₀, hd₀, hpath, hdeclared⟩ :=
            (h.origin d hd).resolve_right fun horigin => ha horigin.2
          refine ⟨_, ["a"], rfl, hdoc.mono (by split <;> simp), fun x hx => ?_⟩
          rw [List.mem_singleton.1 hx, hpath]
          exact .picture hd₀ hpictures (hdeclared ▸ ha)
      · exact hwritten hrels

/-- What all sheets share declares its prefixes after a pass if it did before. -/
theorem shared_of_run {options : FillOptions} {files : ImageFiles} {values : Substitutions}
    {q : Pass} (hworkbook : p.workbook.doc.Declared) (htypes : p.types.doc.Declared)
    (h : p.run options files values = .ok q) : q.workbook.doc.Declared ∧ q.types.doc.Declared := by
  obtain ⟨r, hchanges, rfl⟩ := changes_of_run h
  refine hchanges.keep (I := fun r => r.workbook.doc.Declared ∧ r.types.doc.Declared)
    (fun r r' hchange hr => ?_) ⟨hworkbook, htypes⟩
  cases hchange with
  | text | extendTables | skip | rows | moveAnchors => exact hr
  | shiftRight anchor cols => exact ⟨Workbook.declared_mapNames hr.1 _, hr.2⟩
  | shiftDown shift =>
    refine ⟨?_, hr.2⟩
    have hnames := Workbook.declared_mapNames hr.1 (Layout.Move.named? (.down shift))
    rwa [← shift.shiftName_eq] at hnames
  | drawing hnone hwith hcreate =>
    obtain ⟨rels, rels', id, -, -, -, -, rfl⟩ := Drawing.create_eq_ok hcreate
    exact ⟨hr.1, ContentTypes.declared_ensureOverride
      (ContentTypes.declared_ensureDefault hr.2 _ _) _ _⟩
  | picture => exact ⟨hr.1, ContentTypes.declared_ensureDefault hr.2 _ _⟩

end Fill.Pass

/-! ### Sessions -/

namespace Session

variable {options : FillOptions} {files : ImageFiles} {values : Substitutions}

/-- A session whose parts that all sheets share declare their prefixes. -/
structure SharedDeclared (s : Session) : Prop where
  workbook : s.workbook.doc.Declared
  rels : s.workbook.rels.doc.Declared
  types : s.types.doc.Declared
  strings : s.strings.Declared

/-- A session that is opened shares parts that declare their prefixes. -/
private theorem sharedDeclared_ofPackage {package : Package} {s : Session}
    (hpackage : package.Declared) (hopen : ofPackage package = .ok s) : s.SharedDeclared := by
  obtain ⟨hworkbook, hstrings, htypes, -⟩ := ofPackage_eq_ok.1 hopen
  obtain ⟨-, hdoc, -, hrels, -⟩ := Workbook.load_eq_ok.1 hworkbook
  obtain ⟨d, hd, htypes⟩ := map_eq_ok.1 htypes
  refine ⟨hpackage _ _ hdoc, hpackage _ _ hrels, htypes ▸ hpackage _ _ hd, ?_⟩
  rcases load_strings hstrings with ⟨path, doc, -, hread, heq⟩ | heq | ⟨path, -, heq⟩ <;> rw [heq]
  · exact SharedStrings.declared_ofDocument path (hpackage _ _ hread)
  · exact SharedStrings.declared_empty _
  · exact SharedStrings.declared_empty _

/-- A pass starts with the parts that it has read. -/
private theorem scoped_startPass {s : Session} {selector : SheetSelector} {p : Pass}
    (hs : s.package.Declared) (h : s.startPass selector = .ok p) : Pass.Scoped p p [] := by
  obtain ⟨info, sheet, tables, drawing, -, hsheet, htables, hdrawing, rfl⟩ := startPass_eq_ok h
  refine ⟨rfl, rfl, ?_, fun r hr => ?_, fun t ht => hs _ _ (Table.requireXml_of_loadAll htables ht),
    fun d hd => ?_, fun d hd => .inl ⟨d, hd, rfl, rfl⟩, id, rfl⟩
  · exact Element.DeclaredIn.anywhere (hs _ _ (Worksheet.load_eq_ok hsheet).2.1) _
  · exact hs _ _ (Relationships.load?_eq_some.1 (Worksheet.load?_rels hsheet hr)).2
  · cases hd
    obtain ⟨hdoc, -, hrels⟩ := Drawing.load?_eq_some hdrawing
    refine ⟨hs _ _ hdoc, ?_⟩
    rcases hrels with hread | ⟨-, hempty⟩
    · exact hs _ _ hread
    · rw [hempty]
      exact Relationships.declared_empty _

/-- The workbook and the content types of a pass are the session's afterwards. -/
private theorem SharedDeclared.during {s : Session} (hs : s.SharedDeclared)
    {selector : SheetSelector} {p q : Pass} (hstart : s.startPass selector = .ok p)
    (hrun : p.run options files values = .ok q) : (s.during q).SharedDeclared := by
  obtain ⟨info, sheet, tables, drawing, -, -, -, -, rfl⟩ := startPass_eq_ok hstart
  obtain ⟨hworkbook, htypes⟩ := Pass.shared_of_run hs.workbook hs.types hrun
  refine ⟨hworkbook, ?_, htypes, hs.strings.root, hs.strings.read⟩
  show q.workbook.rels.doc.Declared
  rw [(Pass.workbook_of_run hrun).2]
  exact hs.rels

/-- The request for calculation has no prefix. -/
private theorem declared_requestCalculation {w : Workbook} (h : w.doc.Declared) :
    w.requestCalculation.doc.Declared :=
  Element.DeclaredIn.mapChild h _ fun _ hcalc => hcalc.setAttr (by decide) _

/-- Writing the session keeps its shared parts declared. -/
private theorem SharedDeclared.written {s : Session} (hs : s.SharedDeclared) :
    (s.written s.workbook.rels s.types).SharedDeclared := by
  have hdropped : (s.workbook.dropCalcChain (s.strings.write s.package) s.types).1.doc.Declared ∧
      (s.workbook.dropCalcChain (s.strings.write s.package) s.types).1.rels.doc.Declared ∧
      (s.workbook.dropCalcChain (s.strings.write s.package) s.types).2.2.doc.Declared := by
    unfold Workbook.dropCalcChain
    split
    · exact ⟨declared_requestCalculation hs.workbook, Element.DeclaredIn.removeWhere hs.rels _,
        Element.DeclaredIn.removeWhere hs.types _⟩
    · exact ⟨declared_requestCalculation hs.workbook, hs.rels, hs.types⟩
  exact ⟨hdropped.1, hdropped.2.1, hdropped.2.2, hs.strings⟩

/-- What is written back of parts that declare their prefixes. -/
private theorem SharedDeclared.entries_written {s : Session} (hs : s.SharedDeclared)
    {part : String × ByteArray}
    (h : part ∈ (s.written s.workbook.rels s.types).package.entries) :
    part ∈ s.package.entries ∨ ∃ d : Document, part.2 = d.toBytes ∧ d.Declared := by
  have hnext := hs.written
  have hstrings : part ∈ (s.strings.write s.package).entries →
      part ∈ s.package.entries ∨ ∃ d : Document, part.2 = d.toBytes ∧ d.Declared := by
    intro hpart
    unfold SharedStrings.write at hpart
    split at hpart
    · rcases Package.mem_entries_set hpart with hold | rfl
      · exact .inl hold
      · exact .inr ⟨_, rfl, hs.strings.document s.strings.table⟩
    · exact .inl hpart
  -- The parts are written one after another; each is the last one, or it was there before.
  rcases Package.mem_entries_set h with h | rfl
  · rcases Package.mem_entries_set h with h | rfl
    · rcases Package.mem_entries_set h with h | rfl
      · refine hstrings ?_
        unfold Workbook.dropCalcChain at h
        split at h
        · exact (List.mem_filter.1 h).1
        · exact h
      · exact .inr ⟨_, rfl, hnext.workbook⟩
    · exact .inr ⟨_, rfl, hnext.rels⟩
  · exact .inr ⟨_, rfl, hnext.types⟩

/-- The declaration of the prefix of relationships. -/
private def relationshipsBound : List (String × String) := [("xmlns:r", Drawing.xmlnsRelationships)]

/-- The documents of a workbook with a sheet that shows a picture, given what the sheet declares. -/
private def boundDocuments (bound : List (String × String)) : List (String × Document) :=
  [(Package.contentTypesPart, { root := { name := "Types" } }),
    ("xl/workbook.xml", { root := .ofChildren "workbook" relationshipsBound [
      .ofChildren "sheets" [] [
        { name := "sheet", attributes := [("name", "Plan"), ("r:id", "plan")] }]] }),
    ("xl/_rels/workbook.xml.rels", { root := .ofChildren "Relationships" [] [
      workbookLink "plan" "worksheet" "worksheets/plan.xml",
      workbookLink "strings" "sharedStrings" "strings.xml"] }),
    ("xl/worksheets/plan.xml", { root := .ofChildren "worksheet" bound [.ofChildren "sheetData" [] [
      .ofChildren "row" [("r", "1")] [
        .ofChildren "c" [("r", "A1"), ("t", "s")] [.ofText "v" "0"]]]] }),
    ("xl/strings.xml", { root := .ofChildren "sst" [] [
      .ofChildren "si" [] [.ofText "t" "${image:x}"]] })]

/-- A package written from declared documents is declared when read. -/
private theorem declared_ofDocuments {documents : List (String × Document)}
    (h : ∀ part ∈ documents, part.2.Writable ∧ part.2.tidy = part.2 ∧ part.2.Declared) :
    (Package.ofDocuments documents).Declared := by
  intro name d hread
  obtain ⟨bytes, hget, hparse⟩ := Package.requireXml_eq_ok.1 hread
  rw [Package.get?_ofDocuments] at hget
  obtain ⟨d', hlookup, rfl⟩ := Option.map_eq_some_iff.1 hget
  obtain ⟨before, after, hsplit, -⟩ := List.lookup_eq_some_iff.1 hlookup
  obtain ⟨hwritable, htidy, hdeclared⟩ := h (name, d') (by rw [hsplit]; simp)
  rw [Xml.Document.parse_toBytes hwritable, htidy] at hparse
  exact Except.ok.inj hparse ▸ hdeclared

end Session

end SheetTemplate
