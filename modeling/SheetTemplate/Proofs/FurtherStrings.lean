import SheetTemplate.Proofs.PassSimulation
import SheetTemplate.Proofs.ReferenceRoundTrip
import SheetTemplate.Proofs.SessionParts
import SheetTemplate.Proofs.SheetRun
import SheetTemplate.Proofs.StringSlots

/-!
# Texts that other passes have added

A pass finds the texts of its cells by their slots, and it adds texts only where the table does not
have them. So a table may have got further texts from other passes: the same text may then go into
another slot, but the cells show the same texts, and all that does not depend on slots is the same.

## Key results

- `withText_eq`: cells with different slots of one text
- `further_strings_do_not_matter`: a whole pass, with and without further texts
-/

namespace SheetTemplate

open Xml (Element Node Once)

namespace Fill

/-! ### Cells with texts in place of slots -/

/-- The number that a numeral denotes, however large it is. -/
def number? : List Char → Option Nat
  | '+' :: r => Text.digits? r
  | cs => Text.digits? cs

/-- The slot that a cell names. -/
def namedSlot? (cell : Element) : Option Nat :=
  if cell.attr? "t" = some "s" then
    (cell.child? "v").bind fun v => number? (Text.trim v.text.toList)
  else none

/-- The text of a table that a cell stands for. -/
def denoted? (strings : StringTable) (cell : Element) : Option String :=
  (namedSlot? cell).bind strings.get?

/-- A cell with the text that it stands for in place of its slot. -/
def withText (strings : StringTable) (cell : Element) : Element :=
  match denoted? strings cell with
  | some text => cell.mapChild "v" (·.setText text)
  | none => cell

/-- A row whose cells have texts in place of slots. -/
def rowWithTexts (strings : StringTable) (row : Element) : Element :=
  row.mapNamed "c" (withText strings)

/-- Changes all child elements. -/
def mapElements (f : Element → Element) (e : Element) : Element :=
  { e with children := e.children.map (Node.mapElement f) }

/-- A sheet whose cells have texts in place of slots. -/
def withTexts (strings : StringTable) (sheet : Worksheet) : Worksheet :=
  sheet.mapRoot (·.mapChild "sheetData" (mapElements (rowWithTexts strings)))

/-- A number within a bound is a number, and it is within the bound. -/
private theorem natural?_eq (bound : Nat) (cs : List Char) :
    Text.natural? bound cs = (number? cs).filter (· ≤ bound) := by
  -- A plus sign may come before the digits, which both read in the same way.
  by_cases hplus : ∃ r, cs = '+' :: r
  · obtain ⟨r, rfl⟩ := hplus
    rfl
  · have hnatural : Text.natural? bound cs = (Text.digits? cs).filter (· ≤ bound) := by
      unfold Text.natural?
      split
      · exact absurd ⟨_, rfl⟩ hplus
      · rfl
    have hnumber : number? cs = Text.digits? cs := by
      unfold number?
      split
      · exact absurd ⟨_, rfl⟩ hplus
      · rfl
    rw [hnatural, hnumber]

/-- A pass takes slots of up to 64 bits. -/
theorem shownSlot?_eq (cell : Element) :
    shownSlot? cell = (namedSlot? cell).filter (· ≤ Text.max64) := by
  unfold shownSlot? namedSlot?
  split
  · cases cell.child? "v" with
    | none => rfl
    | some v => exact natural?_eq _ _
  · rfl

/-- A number is read from its own digits. -/
private theorem number?_numeral (n : Nat) : number? (Text.numeral n) = some n := by
  have hread := Text.natural?_numeral (Nat.le_refl n)
  rw [natural?_eq] at hread
  exact (Option.filter_eq_some_iff.1 hread).1

/-- A cell that shows a slot names it. -/
private theorem namedSlot?_setShown {cell : Element} (htype : cell.attr? "t" = some "s")
    (slot : Nat) : namedSlot? (setShown cell (toString slot)) = some slot := by
  obtain ⟨v, hv, hslot⟩ := child?_setShown cell (toString slot)
  rw [namedSlot?, if_pos (by rw [attr?_setShown, htype]), hv, Option.bind_some, hslot,
    Text.toList_toString, CellRef.trim_numeral, number?_numeral]

/-- A cell of another type names no slot. -/
private theorem namedSlot?_of_type {cell : Element} (htype : cell.attr? "t" ≠ some "s") :
    namedSlot? cell = none := if_neg htype

/-- A value that is replaced does not matter. -/
private theorem mapChild_setShown (cell : Element) (old text : String) :
    (setShown cell old).mapChild "v" (·.setText text) = setShown cell text := by
  unfold setShown
  split
  · rw [Element.mapChild_mapChild _ _ fun c => Element.name_setText c old]
    rfl
  · rename_i hnone
    exact Element.mapChild_push cell (.ofText "v" old) "v" (by simpa using hnone) rfl

/-! ### The cells of two passes -/

/-- Cells of two passes that stand for the same, each as of its own string table: the same cell, or
one that shows a text in the slot of either table. -/
inductive SameCell (t t' : StringTable) : Element → Element → Prop
  | same {c : Element} (h : c.name = "c" → ∀ slot, namedSlot? c = some slot →
      ∃ text, t.get? slot = some text ∧ t'.get? slot = some text) : SameCell t t' c c
  | text {c : Element} {slot slot' : Nat} {text : String} (hname : c.name = "c")
      (htype : c.attr? "t" = some "s") (h : t.get? slot = some text)
      (h' : t'.get? slot' = some text) :
      SameCell t t' (setShown c (toString slot)) (setShown c (toString slot'))

namespace SameCell

variable {t t' u u' : StringTable} {c c' : Element}

/-- A cell that names no slot. -/
theorem of_namedSlot? (h : namedSlot? c = none) : SameCell t t' c c :=
  .same fun _ slot hslot => by
    rw [h] at hslot
    cases hslot

/-- Cells stay the same when both tables grow. -/
theorem grow (hu : t.GrowsTo u) (hu' : t'.GrowsTo u') (h : SameCell t t' c c') :
    SameCell u u' c c' := by
  cases h with
  | same h =>
    refine .same fun hname slot hslot => ?_
    obtain ⟨text, htext, htext'⟩ := h hname slot hslot
    exact ⟨text, hu.get? htext, hu'.get? htext'⟩
  | text hname htype h h' => exact .text hname htype (hu.get? h) (hu'.get? h')

/-- Cells that are the same stand in the same place. -/
theorem place (h : SameCell t t' c c') : c.name = c'.name ∧ c.attr? "r" = c'.attr? "r" := by
  cases h with
  | same _ => exact ⟨rfl, rfl⟩
  | text _ _ _ _ => simp

/-- Its place does not change what slot a cell names. -/
private theorem namedSlot?_setAttr (c : Element) (value : String) :
    namedSlot? (c.setAttr "r" value) = namedSlot? c := by
  simp [namedSlot?, Element.attr?_setAttr_of_ne c (show "t" ≠ "r" by decide)]

/-- Showing a text and giving a place commute. -/
private theorem setAttr_setShown (c : Element) (value text : String) :
    (setShown c text).setAttr "r" value = setShown (c.setAttr "r" value) text := by
  unfold setShown
  rw [Element.child?_setAttr]
  split <;> rfl

/-- Cells that are the same may be given one place. -/
theorem setAttr (value : String) (h : SameCell t t' c c') :
    SameCell t t' (c.setAttr "r" value) (c'.setAttr "r" value) := by
  cases h with
  | same h => exact .same fun hname slot hslot => h hname slot (namedSlot?_setAttr c value ▸ hslot)
  | text hname htype h h' =>
    rw [setAttr_setShown, setAttr_setShown]
    exact .text hname ((Element.attr?_setAttr_of_ne _ (by decide) _).trans htype) h h'

/-- A text inserted into both goes into a slot of each table. -/
theorem insertText (ht : t.Indexed) (ht' : t'.Indexed) (hname : c.name = "c") (text : String) :
    SameCell (insertText t c text).1 (insertText t' c text).1 (insertText t c text).2
      (insertText t' c text).2 :=
  .text hname (Element.attr?_setAttr_self ..) (StringTable.get?_index ht text)
    (StringTable.get?_index ht' text)

/-- So does a value that is a text; other values are shown without a slot. -/
theorem insertValue (ht : t.Indexed) (ht' : t'.Indexed) (hname : c.name = "c")
    (honce : Once "t" c.attributes) (value : Value) :
    SameCell (insertValue t c value).1 (insertValue t' c value).1 (insertValue t c value).2
      (insertValue t' c value).2 := by
  have hremoved : (c.removeAttr "t").attr? "t" ≠ some "s" := by
    simp [Element.attr?_removeAttr_self honce]
  unfold Fill.insertValue
  split
  · exact .of_namedSlot? (namedSlot?_of_type (by simpa [insertFormula] using hremoved))
  · split
    · exact .of_namedSlot? (namedSlot?_of_type (by simp))
    · exact .of_namedSlot? (namedSlot?_of_type (by simpa using hremoved))
    · exact .of_namedSlot? (namedSlot?_of_type (by simpa using hremoved))
    · exact insertText ht ht' hname _

/-- A cell without a value names no slot. -/
private theorem namedSlot?_removeNamed (c : Element) : namedSlot? (c.removeNamed "v") = none := by
  simp [namedSlot?, Element.child?_removeNamed_self]

/-- Where a formula loses what it shows, no slot is left. -/
theorem dropCached (h : SameCell t t' c c') :
    SameCell t t' (dropCached c) (dropCached c') := by
  unfold Fill.dropCached
  -- A cell with a formula loses its value in both, any other keeps it in both.
  cases h with
  | same h =>
    split
    · exact .of_namedSlot? (namedSlot?_removeNamed c)
    · exact .same h
  | text hname htype h h' =>
    rw [child?_setShown_of_ne _ _ (by decide), child?_setShown_of_ne _ _ (by decide)]
    split
    · rw [removeNamed_setShown, removeNamed_setShown]
      exact .of_namedSlot? (namedSlot?_removeNamed _)
    · exact .text hname htype h h'

end SameCell

/-- Cells of which each stands for the same text have the same text in place of their slot. -/
theorem withText_eq {t t' : StringTable} {c c' : Element} (h : SameCell t t' c c')
    (hname : c.name = "c") : withText t c = withText t' c' := by
  -- The cells are equal, with the slot having one text in both tables, or they name two slots of
  -- one text.
  cases h with
  | same h =>
    have hdenoted : denoted? t c = denoted? t' c := by
      unfold denoted?
      cases hslot : namedSlot? c with
      | none => rfl
      | some slot =>
        obtain ⟨text, htext, htext'⟩ := h hname slot hslot
        rw [Option.bind_some, Option.bind_some, htext, htext']
    unfold withText
    rw [hdenoted]
  | text _ htype h h' =>
    unfold withText denoted?
    rw [namedSlot?_setShown htype, namedSlot?_setShown htype, Option.bind_some, Option.bind_some,
      h, h']
    dsimp only
    rw [mapChild_setShown, mapChild_setShown]

/-- What is no cell is the same in both passes. -/
private theorem eq_of_sameCell {t t' : StringTable} {c c' : Element} (h : SameCell t t' c c')
    (hname : c.name ≠ "c") : c = c' := by
  cases h with
  | same _ => rfl
  | text hc _ _ _ => exact absurd ((name_setShown _ _).trans hc) hname

/-! ### Passes with and without further texts -/

/-- Tables that begin with some texts have them in the same slots. -/
private theorem exists_text {texts more : List String} {t t' : StringTable}
    (h : (StringTable.ofList texts).GrowsTo t)
    (h' : (StringTable.ofList (texts ++ more)).GrowsTo t')
    {slot : Nat} (hslot : slot < texts.length) :
    ∃ text, t.get? slot = some text ∧ t'.get? slot = some text := by
  have hget : ∀ l : List String, (StringTable.ofList l).get? slot = l[slot]? := fun l => by
    rw [StringTable.get?, ← Array.getElem?_toList]
    exact congrArg (·[slot]?) (StringTable.toList_ofList l)
  refine ⟨texts[slot], h.get? ?_, h'.get? ?_⟩
  · rw [hget, List.getElem?_eq_getElem hslot]
  · rw [hget, List.getElem?_append_left hslot, List.getElem?_eq_getElem hslot]

/-- Giving a place does not add a second type. -/
private theorem once_setAttr {c : Element} (h : Once "t" c.attributes) (value : String) :
    Once "t" (c.setAttr "r" value).attributes := by
  have hkeys : (c.attributes.map Prod.fst).Pairwise fun a b => a = "t" → b ≠ "t" :=
    List.pairwise_map.2 h
  refine List.pairwise_map.1 (show ((c.setAttr "r" value).attributes.map Prod.fst).Pairwise
    fun a b => a = "t" → b ≠ "t" from ?_)
  show ((Keyed.set "r" value c.attributes).map Prod.fst).Pairwise _
  rw [Keyed.map_fst_set]
  split
  · exact hkeys
  · refine List.pairwise_append.2 ⟨hkeys, List.pairwise_singleton _ _, fun a _ b hb _ => ?_⟩
    rw [List.mem_singleton.1 hb]
    decide

/-- An emptied cell has lost its only type and names no slot. -/
private theorem namedSlot?_emptied {c : Element} (h : Once "t" c.attributes) :
    namedSlot? (emptied c) = none := by
  refine namedSlot?_of_type ?_
  show (c.removeAttr "t").attr? "t" ≠ some "s"
  simp [Element.attr?_removeAttr_self h]

/-- Passes over a sheet whose cells name slots of some texts, with any tables that have grown from
two that begin with these texts. -/
private def slotsOf (texts more : List String) : Simulation where
  workbook := Eq
  types := Eq
  strings t t' := (t.Indexed ∧ (StringTable.ofList texts).GrowsTo t) ∧
    (t'.Indexed ∧ (StringTable.ofList (texts ++ more)).GrowsTo t')
  cell := SameCell
  source c := Once "t" c.attributes ∧
    (c.name = "c" → ∀ slot, namedSlot? c = some slot → slot < texts.length)
  bare _ := True
  moveNames _ h := by rw [h]
  ensureDefault _ _ h := by rw [h]
  ensureOverride _ _ h := by rw [h]
  index text h :=
    ⟨⟨StringTable.indexed_index h.1.1 text, h.1.2.trans (StringTable.growsTo_index ..)⟩,
      StringTable.indexed_index h.2.1 text, h.2.2.trans (StringTable.growsTo_index ..)⟩
  source_setAttr value h := ⟨once_setAttr h.1 value, fun hname slot hslot =>
    h.2 hname slot (SameCell.namedSlot?_setAttr _ value ▸ hslot)⟩
  bare_setAttr _ _ _ := trivial
  bare_shallow _ := trivial
  bare_removeElements _ := trivial
  grow := SameCell.grow
  place := SameCell.place
  cell_setAttr := SameCell.setAttr
  shown h hc hname := by
    unfold shownText?
    rw [shownSlot?_eq]
    cases hslot : namedSlot? _ with
    | none => rfl
    | some slot =>
      obtain ⟨text, htext, htext'⟩ := exists_text h.1.2 h.2.2 (hc.2 hname slot hslot)
      rw [Option.filter_some]
      split
      · rw [Option.bind_some, Option.bind_some, htext, htext']
      · rfl
  kept h hc := .same fun hname slot hslot => exists_text h.1.2 h.2.2 (hc.2 hname slot hslot)
  emptied hc _ := .of_namedSlot? (namedSlot?_emptied hc.1)
  insertText text h hc hname := .insertText h.1.1 h.2.1 hname text
  insertValue value h hc hname := .insertValue h.1.1 h.2.1 hname hc.1 value

/-! ### Sheets with texts in place of slots -/

/-- An element without child elements has none to edit. -/
private theorem mapElements_of_elements {e : Element} (h : e.elements = [])
    (f : Element → Element) : mapElements f e = e := by
  obtain ⟨name, attributes, nodes⟩ := e
  have hnode : ∀ node ∈ nodes, node.mapElement f = node := by
    intro node hnode
    have hnone := List.filterMap_eq_nil_iff.1 h node hnode
    cases node with
    | element c => cases hnone
    | text t | cdata t | comment t => rfl
  unfold mapElements
  dsimp only
  rw [List.map_congr_left hnode, List.map_id']

/-- Elements put at the end are edited, too. -/
private theorem mapElements_pushAll (e : Element) (children : List Element)
    (f : Element → Element) :
    mapElements f (e.pushAll children) = (mapElements f e).pushAll (children.map f) := by
  simp [mapElements, Element.pushAll, Node.mapElement, Function.comp_def]

/-- All that a row may become by its cells is the same for rows whose cells become the same. -/
private theorem mapNamed_eq {texts more : List String} {t t' : StringTable} {row row' : Element}
    (h : (slotsOf texts more).RowLike t t' row row') {f f' : Element → Element}
    (hf : ∀ c c', SameCell t t' c c' → c.name = "c" → f c = f' c') :
    row.mapNamed "c" f = row'.mapNamed "c" f' := by
  -- Both rows are one base with related cells at the end.
  obtain ⟨base, cells, cells', -, hbase, hcells, rfl, rfl⟩ := h
  rw [Element.mapNamed_pushAll, Element.mapNamed_pushAll,
    base.mapNamed_congr "c" fun c hc hname => hf c c (hbase c hc) hname]
  congr 1
  refine map_eq_of_forall₂ (fun c c' hc => ?_) hcells
  have hsame : SameCell t t' c c' := hc
  rw [← hsame.place.1]
  by_cases hname : c.name = "c"
  · rw [if_pos (by simpa using hname), if_pos (by simpa using hname), hf c c' hsame hname]
  · rw [if_neg (by simpa using hname), if_neg (by simpa using hname),
      eq_of_sameCell hsame hname]

/-- A row with texts in place of slots does not depend on the slots. -/
private theorem rowWithTexts_eq {texts more : List String} {t t' : StringTable}
    {row row' : Element} (h : (slotsOf texts more).RowLike t t' row row') :
    rowWithTexts t (uncachedRow row) = rowWithTexts t' (uncachedRow row') := by
  have hname : row.name = row'.name := by
    obtain ⟨base, cells, cells', -, -, -, rfl, rfl⟩ := h
    rfl
  unfold rowWithTexts uncachedRow
  rw [← hname]
  split
  · rw [Element.mapNamed_mapNamed _ _ name_dropCached,
      Element.mapNamed_mapNamed _ _ name_dropCached]
    exact mapNamed_eq h fun c c' hc hcell => withText_eq hc.dropCached
      ((name_dropCached c).trans hcell)
  · exact mapNamed_eq h fun c c' hc hcell => withText_eq hc hcell

/-- The list of rows, put together of what was there besides rows and of finished rows. -/
private theorem mapElements_rows {data : Element} (h : data.elements = []) (rows : List Element)
    (f : Element → Element) :
    mapElements f ((data.pushAll rows).mapNamed "row" (·.mapNamed "c" dropCached)) =
      data.pushAll (rows.map fun row => f (uncachedRow row)) := by
  have hbare : data.mapNamed "row" (·.mapNamed "c" dropCached) = data := by
    rw [data.mapNamed_congr (g := id) "row" fun c hc => by rw [h] at hc; cases hc]
    exact Element.mapNamed_of_id data _ fun _ => rfl
  rw [Element.mapNamed_pushAll, hbare, mapElements_pushAll, mapElements_of_elements h, List.map_map]
  rfl

/-- The dimension of a sheet has nothing to do with its rows. -/
private theorem mapChild_extendDimension (cols : Int) (inserted : Nat) (root : Element)
    {f : Element → Element} (hf : ∀ e : Element, (f e).name = e.name) :
    (extendDimension cols inserted root).mapChild "sheetData" f =
      extendDimension cols inserted (root.mapChild "sheetData" f) := by
  unfold extendDimension
  split
  · rfl
  · exact Element.mapChild_comm root (by decide) (fun e => Layout.name_moveRef _ e) hf

/-- The finished sheet with texts in place of slots. -/
private theorem withTexts_finishSheet (given : Given) (t : StringTable) {p : Pass}
    (hdata : ∀ data, p.sheet.doc.root.child? "sheetData" = some data → data.elements = []) :
    withTexts t (p.finishSheet given).sheet = fillLinks given.values (p.sheet.mapRoot fun root =>
      extendDimension p.maxColsInserted p.rowsInserted (root.mapChild "sheetData"
        (·.pushAll (p.rows.toList.map fun row => rowWithTexts t (uncachedRow row))))) := by
  -- The dimension does not look at the rows, so that all edits of the rows can be made before it.
  have hroot : ((dropCachedValues (extendDimension p.maxColsInserted p.rowsInserted
        (p.sheet.doc.root.mapChild "sheetData" (·.pushAll p.rows.toList)))).mapChild "sheetData"
          (mapElements (rowWithTexts t))) =
      extendDimension p.maxColsInserted p.rowsInserted (p.sheet.doc.root.mapChild "sheetData"
        (·.pushAll (p.rows.toList.map fun row => rowWithTexts t (uncachedRow row)))) := by
    unfold dropCachedValues
    rw [mapChild_extendDimension _ _ _ fun e => Element.name_mapNamed e _ _,
      mapChild_extendDimension _ _ _ fun e => show (mapElements _ e).name = e.name from rfl,
      Element.mapChild_mapChild _ _ fun e => Element.name_pushAll e _,
      Element.mapChild_mapChild _ _ fun e => show ((e.pushAll p.rows.toList).mapNamed "row"
        (·.mapNamed "c" dropCached)).name = e.name from rfl]
    congr 1
    exact p.sheet.doc.root.mapChild_congr "sheetData" fun data h =>
      mapElements_rows (hdata data h) _ _
  unfold withTexts Pass.finishSheet fillLinks Worksheet.mapRoot
  dsimp only
  rw [hroot]

/-! ### A whole pass -/

/-- Packages that hold the same, but for one part. -/
def SameApart (path : String) (p p' : Package) : Prop :=
  ∀ name, name ≠ path → p.get? name = p'.get? name

namespace SameApart

variable {path : String} {p p' : Package}

/-- Packages that are the same apart from one part stay so when another part is set in both. -/
theorem set (h : SameApart path p p') (name : String) (bytes : ByteArray) :
    SameApart path (p.set name bytes) (p'.set name bytes) := by
  intro other hother
  by_cases hname : other = name
  · rw [hname, Package.get?_set_self, Package.get?_set_self]
  · rw [Package.get?_set_of_ne _ hname, Package.get?_set_of_ne _ hname, h other hother]

/-- The part itself may get different bytes. -/
theorem set_path (h : SameApart path p p') (bytes bytes' : ByteArray) :
    SameApart path (p.set path bytes) (p'.set path bytes') := by
  intro other hother
  rw [Package.get?_set_of_ne _ hother, Package.get?_set_of_ne _ hother, h other hother]

end SameApart

/-- Passes that come to the same in all but the slots of texts: the sheets are the same with texts
in place of slots, as are the packages without the sheet, and so is all else. -/
structure SameButSlots (q q' : Pass) : Prop where
  sheet : withTexts q.strings q.sheet = withTexts q'.strings q'.sheet
  tables : q.tables = q'.tables
  drawing : q.drawing = q'.drawing
  workbook : q.workbook = q'.workbook
  types : q.types = q'.types
  skipped : q.skipped = q'.skipped
  package : SameApart q.sheet.path q.package q'.package

/-- Passes that differ in their rows only are saved with the same parts, apart from the sheet. -/
private theorem sameApart_save {q q' : Pass} (hpackage : q.package = q'.package)
    (hpath : q.sheet.path = q'.sheet.path) (hrels : q.sheet.rels = q'.sheet.rels)
    (htables : q.tables = q'.tables) (hdrawing : q.drawing = q'.drawing) :
    SameApart q.sheet.path q.save.package q'.save.package := by
  -- The sheet is the part that may differ; its relationships are written in both.
  have hsheet : SameApart q.sheet.path (q.sheet.save q.package) (q'.sheet.save q'.package) := by
    have hbefore : SameApart q.sheet.path q.package q'.package := fun name _ => by rw [hpackage]
    have hdoc := hbefore.set_path q.sheet.doc.toBytes q'.sheet.doc.toBytes
    unfold Worksheet.save Package.setXml
    rw [← hpath, ← hrels]
    dsimp only
    split
    · exact hdoc.set _ _
    · exact hdoc
  have hsaved : ∀ (tables : List Table) (a a' : Package), SameApart q.sheet.path a a' →
      SameApart q.sheet.path (tables.foldl (fun package table => table.save package) a)
        (tables.foldl (fun package table => table.save package) a') := by
    intro tables
    induction tables with
    | nil => exact fun a a' h => h
    | cons table tables ih => exact fun a a' h => ih _ _ (h.set _ _)
  unfold Pass.save
  dsimp only
  rw [← htables, ← hdrawing]
  split
  · exact ((hsaved _ _ _ hsheet).set _ _).set _ _
  · exact hsaved _ _ _ hsheet

/-- Passes that filled related rows come to the same in all but the slots of texts. -/
private theorem sameButSlots_of_since {texts more : List String} {given : Given} {p p' r r' : Pass}
    (h : (slotsOf texts more).Since p p' r r')
    (hdata : ∀ data, r.sheet.doc.root.child? "sheetData" = some data → data.elements = []) :
    SameButSlots (r.finishSheet given).save (r'.finishSheet given).save := by
  obtain ⟨hsheet, htables, hdrawing, hpackage, hinserted, hcols, hskipped⟩ := h.related.same
  have hworkbook : r.workbook = r'.workbook ∧ r.types = r'.types := by
    cases h.related with
    | intro hw ht _ _ => exact ⟨hw, ht⟩
  -- With texts in place of slots the finished rows are the same, row by row.
  have hrows : r.rows.toList.map (fun row => rowWithTexts r.strings (uncachedRow row)) =
      r'.rows.toList.map fun row => rowWithTexts r'.strings (uncachedRow row) :=
    map_eq_of_forall₂ (fun _ _ hrow => rowWithTexts_eq hrow) h.related.rows
  refine ⟨?_, ?_, ?_, hworkbook.1, hworkbook.2, hskipped.symm, ?_⟩
  · show withTexts r.strings (r.finishSheet given).sheet =
      withTexts r'.strings (r'.finishSheet given).sheet
    rw [withTexts_finishSheet given _ hdata, withTexts_finishSheet given _ (by rwa [hsheet]), hrows,
      hsheet, hinserted, hcols]
  · show (r.finishSheet given).tables = (r'.finishSheet given).tables
    unfold Pass.finishSheet
    dsimp only
    rw [htables]
  · exact hdrawing.symm
  · have hrels : (r.finishSheet given).sheet.rels = (r'.finishSheet given).sheet.rels := by
      unfold Pass.finishSheet fillLinks Worksheet.mapRoot
      dsimp only
      rw [hsheet]
    show SameApart (r.finishSheet given).sheet.path (r.finishSheet given).save.package
      (r'.finishSheet given).save.package
    refine sameApart_save hpackage.symm ?_ hrels ?_ hdrawing.symm
    · show r.sheet.path = r'.sheet.path
      rw [hsheet]
    · unfold Pass.finishSheet
      dsimp only
      rw [htables]

/-- What a source row has inside, if all cells of the sheet name slots of some texts. -/
private theorem sourceRow_of_parse {texts more : List String} {bytes : ByteArray} {d : Xml.Document}
    (hparse : Xml.Document.parse bytes = .ok d) {row : Element} (hrow : row ∈ sourceRows d.root)
    (hslots : ∀ c ∈ row.named "c", ∀ slot, namedSlot? c = some slot → slot < texts.length) :
    (slotsOf texts more).SourceRow row := by
  refine ⟨trivial, fun e he => ⟨?_, fun hname => hslots e (List.mem_filter.2 ⟨he, ?_⟩)⟩⟩
  · refine Xml.once_of_parse hparse (.of_mem_elements he ?_) (by decide)
    unfold sourceRows at hrow
    split at hrow
    · rename_i data hdata
      exact .of_mem_elements hrow (.of_mem_elements (List.mem_of_find?_eq_some hdata) .self)
    · cases hrow
  · simpa using hname

/-- A pass does not depend on texts that other passes have added. If the cells of the sheet name
slots of the texts that the table begins with, the pass can be started with further texts in the
table exactly if it can be started without them, and then it comes to the same in all but the slots
of texts, or fails for the same reason. Either way every slot that was there keeps its text. -/
theorem further_strings_do_not_matter (options : FillOptions) (files : ImageFiles)
    (values : Substitutions) (package : Package) (workbook : Workbook) (types : ContentTypes)
    (info : SheetInfo) (texts more : List String)
    (hslots : ∀ sheet, Worksheet.load package info = .ok sheet →
      ∀ row ∈ sourceRows sheet.doc.root, ∀ c ∈ row.named "c", ∀ slot,
        namedSlot? c = some slot → slot < texts.length) :
    BothOrNeither Eq
      (fun p p' => BothOrNeither
        (fun f f' => f.error = f'.error ∧ f.left.skipped = f'.left.skipped ∧
          (StringTable.ofList texts).GrowsTo f.left.strings ∧
          (StringTable.ofList (texts ++ more)).GrowsTo f'.left.strings)
        (fun q q' => SameButSlots q q' ∧ (StringTable.ofList texts).GrowsTo q.strings ∧
          (StringTable.ofList (texts ++ more)).GrowsTo q'.strings)
        (p.run options files values) (p'.run options files values))
      (Pass.start package workbook (.ofList texts) types info)
      (Pass.start package workbook (.ofList (texts ++ more)) types info) := by
  -- Reading the parts does not ask for the tables.
  unfold Pass.start
  refine (BothOrNeither.self (Worksheet.load package info)).bind_of_eq ?_
  rintro sheet _ hload - rfl
  refine .bind (.self _) ?_
  rintro tables _ rfl
  refine .bind (.self _) ?_
  rintro drawing _ rfl
  refine .ok ?_
  generalize hp : Pass.mk sheet tables drawing (.ofList texts) workbook package types #[] 0 0 [] = p
  generalize hp' : Pass.mk sheet tables drawing (.ofList (texts ++ more)) workbook package types
    #[] 0 0 [] = p'
  -- Before their first row the passes differ in nothing but their tables.
  have hrelated : (slotsOf texts more).Related p p' := by
    subst hp hp'
    exact .intro rfl rfl ⟨⟨StringTable.indexed_ofList _, .refl _⟩,
      StringTable.indexed_ofList _, .refl _⟩ .nil
  have hrows : ∀ row ∈ sourceRows p.sheet.doc.root, (slotsOf texts more).SourceRow row := by
    subst hp
    obtain ⟨d, hread, rfl⟩ := map_eq_ok.1 hload
    obtain ⟨bytes, -, hparse⟩ := Package.requireXml_eq_ok.1 hread
    exact fun row hrow => sourceRow_of_parse hparse hrow (hslots _ hload row hrow)
  have hrun := Simulation.sim_run hrelated hrows options files values
  generalize p.run options files values = x at hrun ⊢
  generalize p'.run options files values = x' at hrun ⊢
  cases hrun with
  | error hf => exact .error ⟨hf.error, hf.skipped, hf.strings.1.2, hf.strings.2.2⟩
  | ok hq =>
    obtain ⟨r, r', hsince, hfill, rfl, rfl⟩ := hq
    refine .ok ⟨sameButSlots_of_since hsince fun data hdata => ?_,
      hsince.related.strings.1.2, hsince.related.strings.2.2⟩
    -- While rows are filled, the sheet has none.
    obtain ⟨blocks, hrowsRun⟩ := Pass.rowsRun_of_fillSourceRows hfill
      (show p.withoutRows.rowsInserted = Text.low32 0 by subst hp; rfl)
    obtain ⟨moves, hmoved⟩ := hrowsRun.shifted
    have hbare := hmoved.data.symm.trans hdata
    rw [Pass.withoutRows] at hbare
    have hchild : (p.sheet.doc.root.mapChild "sheetData" Element.removeElements).child?
        "sheetData" = some data := hbare
    rw [Element.child?_mapChild_self _ _ Element.name_removeElements] at hchild
    obtain ⟨source, -, rfl⟩ := Option.map_eq_some_iff.1 hchild
    exact Element.elements_removeElements source

/-- A sheet of one cell, which shows the first text of the table. -/
def cellDocument : Xml.Document :=
  { root := .ofChildren "worksheet" [] [.ofChildren "sheetData" [] [
    .ofChildren "row" [("r", "1")] [sampleCell [("r", "A1")] "0"]]] }

/-- A pass over this sheet before its first row. -/
def cellPass (strings : StringTable) : Pass where
  sheet := { name := "Plan", path := "sheet.xml", doc := cellDocument, rels := none }
  tables := []
  drawing := none
  strings
  workbook := default
  package := .ofDocuments [("sheet.xml", cellDocument)]
  types := default

/-- The text that takes the place of the placeholder is new to one of the tables. -/
theorem further_strings_do_not_matter_sample :
    ∃ q q', (cellPass (.ofList ["${x}"])).run {} (fun _ => none) [("x", .text "new")] = .ok q ∧
      (cellPass (.ofList (["${x}"] ++ ["old", "new"]))).run {} (fun _ => none)
        [("x", .text "new")] = .ok q' ∧
      q.strings.toList = ["${x}", "new"] ∧ q'.strings.toList = ["${x}", "old", "new"] ∧
      SameButSlots q q' := by
  -- The pass is the one that starts on its own package.
  have hload : Worksheet.load (cellPass {}).package ⟨"Plan", none, "", "sheet.xml"⟩ =
      .ok (cellPass {}).sheet := by
    refine map_eq_ok.2 ⟨_, Package.requireXml_ofDocuments (by decide +kernel) rfl, ?_⟩
    rw [Relationships.load?, Package.xml?_of_get?_eq_none (Package.get?_ofDocuments _ _)]
    rfl
  have hstart : ∀ strings : StringTable, Pass.start (cellPass {}).package default strings default
      ⟨"Plan", none, "", "sheet.xml"⟩ = .ok (cellPass strings) := by
    intro strings
    rw [Pass.start, hload]
    rfl
  have hboth := further_strings_do_not_matter {} (fun _ => none) [("x", .text "new")]
    (cellPass {}).package default default ⟨"Plan", none, "", "sheet.xml"⟩ ["${x}"] ["old", "new"]
    (by
      intro sheet hsheet
      cases hload.symm.trans hsheet
      decide +kernel)
  rw [hstart, hstart] at hboth
  obtain ⟨q, hq, hstrings⟩ := exists_eq_ok (f := fun q : Pass => q.strings.toList)
    (x := (cellPass (.ofList ["${x}"])).run {} (fun _ => none) [("x", .text "new")])
    (b := ["${x}", "new"]) (by decide +kernel)
  obtain ⟨q', hq', hstrings'⟩ := exists_eq_ok (f := fun q : Pass => q.strings.toList)
    (x := (cellPass (.ofList (["${x}"] ++ ["old", "new"]))).run {} (fun _ => none)
      [("x", .text "new")])
    (b := ["${x}", "old", "new"]) (by decide +kernel)
  cases hboth with
  | ok hrun =>
    rw [hq, hq'] at hrun
    cases hrun with
    | ok hsame => exact ⟨q, q', hq, hq', hstrings, hstrings', hsame.1⟩

end Fill

end SheetTemplate
