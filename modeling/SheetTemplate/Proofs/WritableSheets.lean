import SheetTemplate.Proofs.AlikeParts
import SheetTemplate.Proofs.PassChanges
import SheetTemplate.Proofs.RowContents

/-!
# Sheets that can be written

A pass gives elements and attributes names of XML only, no element two attributes of one name, and
it makes no sections and comments. So what it leaves of a sheet that can be written can be written,
and read back up to how its texts are divided.

Cells and rows are followed by a rule for rows, all else by the changes that the pass makes.

## Key results

- `writable_of_run`: the sheet that a pass leaves
-/

namespace SheetTemplate

open Xml (Element Node NamedTag TidyEdit)

/-! ### Edits -/

namespace Xml.Element.Writable

variable {e : Element}

/-- An element is writable with other children if these are. -/
private theorem of_nodes (h : e.Writable) {nodes : List Node} (hnodes : ∀ n ∈ nodes, n.Writable) :
    Element.Writable { e with children := nodes } :=
  writable_iff.2 ⟨(writable_iff.1 h).1, Node.allWritable_iff.2 hnodes⟩

/-- All children of a writable element are. -/
private theorem nodes (h : e.Writable) : ∀ n ∈ e.children, n.Writable :=
  Node.allWritable_iff.1 (writable_iff.1 h).2

/-- So is the element without its children. -/
theorem shallow (h : e.Writable) : e.shallow.Writable := h.of_nodes fun n hn => by cases hn

/-- So is the element without one of its attributes: names and keys are among those before. -/
theorem removeAttr (h : e.Writable) (key : String) : (e.removeAttr key).Writable := by
  obtain ⟨hname, hkeys, hdistinct⟩ := (writable_iff.1 h).1
  refine writable_iff.2 ⟨⟨hname, fun a ha => hkeys a (List.mem_of_mem_eraseP ha), ?_⟩,
    (writable_iff.1 h).2⟩
  exact hdistinct.sublist (List.eraseP_sublist.map _)

/-- A writable child may be put in at any place. -/
theorem insert (h : e.Writable) (place : Nat) {child : Element} (hchild : child.Writable) :
    (e.insert place child).Writable := by
  refine h.of_nodes fun n hn => ?_
  rcases List.mem_append.1 hn with hbefore | hn
  · exact h.nodes n (List.mem_of_mem_take hbefore)
  · rcases List.mem_cons.1 hn with rfl | hafter
    · exact hchild
    · exact h.nodes n (List.mem_of_mem_drop hafter)

/-- Children may be removed by their name. -/
theorem removeNamed (h : e.Writable) (n : String) : (e.removeNamed n).Writable :=
  (TidyEdit.removeWhere fun c => by rw [c.name_tidy]).writable e h

/-- All elements inside may be removed. -/
theorem removeElements (h : e.Writable) : e.removeElements.Writable :=
  (TidyEdit.removeWhere fun _ => rfl).writable e h

/-- All children of one name may be edited. -/
theorem mapNamed (h : e.Writable) (n : String) {f : Element → Element}
    (hf : ∀ c : Element, c.Writable → (f c).Writable) : (e.mapNamed n f).Writable := by
  refine h.of_nodes fun node hnode => ?_
  obtain ⟨old, hold, rfl⟩ := List.mem_map.1 hnode
  have hwritable := h.nodes old hold
  cases old with
  | element c =>
    show Element.Writable (if c.name == n then f c else c)
    split
    · exact hf c hwritable
    · exact hwritable
  | text t | cdata t | comment t => exact hwritable

/-- So may the first child that passes a test. -/
theorem mapFirst (h : e.Writable) (p : Element → Bool) {f : Element → Element}
    (hf : ∀ c : Element, c.Writable → (f c).Writable) :
    Element.Writable { e with children := Node.mapFirst p f e.children } := by
  refine h.of_nodes ?_
  have hnodes := h.nodes
  generalize e.children = nodes at hnodes ⊢
  -- Along the nodes, up to the first one that passes the test.
  induction nodes with
  | nil => exact hnodes
  | cons node r ih =>
    obtain ⟨hnode, hrest⟩ := List.forall_mem_cons.1 hnodes
    unfold Node.mapFirst
    split
    · refine List.forall_mem_cons.2 ⟨?_, hrest⟩
      cases node with
      | element c => exact hf c hnode
      | text t | cdata t | comment t => exact hnode
    · exact List.forall_mem_cons.2 ⟨hnode, ih hrest⟩

/-- So may the first child of a name. -/
theorem mapChild (h : e.Writable) (n : String) {f : Element → Element}
    (hf : ∀ c : Element, c.Writable → (f c).Writable) : (e.mapChild n f).Writable :=
  h.mapFirst _ hf

/-- Writable children may be put at the end. -/
theorem pushAll (h : e.Writable) {children : List Element}
    (hchildren : ∀ c ∈ children, c.Writable) :
    (e.pushAll children).Writable := (TidyEdit.pushAll hchildren).writable e h

end Xml.Element.Writable

/-- An element with a name of XML and a text inside. -/
theorem Xml.Element.writable_ofText {name : String} (h : Xml.IsName name) (t : String) :
    (Element.ofText name t).Writable :=
  writable_iff.2 ⟨.of_keys [] rfl h (by simp) (by simp), trivial, trivial⟩

namespace Fill

open Layout (RowShift)

/-! ### Cells -/

section

variable {c : Element} (h : c.Writable)

include h

/-- An attribute may be set under a key that is a name. -/
private theorem writable_setAttr {key : String} (hkey : Xml.IsName key) (value : String) :
    (c.setAttr key value).Writable := (TidyEdit.setAttr hkey value).writable c h

/-- A cell that shows a text has written names only. -/
private theorem writable_setShown (text : String) : (setShown c text).Writable := by
  unfold setShown
  split
  · exact h.mapChild "v" fun v hv =>
      (TidyEdit.setText (t := fun _ => text) fun _ => rfl).writable v hv
  · exact (TidyEdit.push (Element.writable_ofText (by decide) text)).writable c h

/-- So has a cell with a formula. -/
private theorem writable_insertFormula (expression : String) :
    (insertFormula c expression).Writable :=
  (((h.removeAttr "t").removeNamed "v").removeNamed "f").insert 0
    (Element.writable_ofText (by decide) expression)

/-- Taking a cached value away leaves a part of what was written. -/
private theorem writable_dropCached : (dropCached c).Writable := by
  unfold dropCached
  split
  · exact h.removeNamed "v"
  · exact h

/-- A reference that moves is the text of an attribute. -/
private theorem writable_moveRef (rule : RangeRef → Option RangeRef) :
    (Layout.moveRef rule c).Writable := by
  unfold Layout.moveRef
  split
  · exact writable_setAttr h (by decide) _
  · exact h

end

/-- Cells and rows that can be written. -/
private def writableRows : RowRule where
  cell := Element.Writable
  row := Element.Writable
  setAttr value hkey h := writable_setAttr h (by rcases hkey with rfl | rfl <;> decide) value
  removeType h := h.removeAttr "t"
  clear h := h.shallow
  setShown text h := writable_setShown h text
  insertFormula expression h := writable_insertFormula h expression
  row_setAttr value hkey h := writable_setAttr h (by rcases hkey with rfl | rfl <;> decide) value
  row_shallow h := h.shallow
  row_removeElements h := h.removeElements
  row_pushAll h hcells := h.pushAll hcells
  cells h _ hc := Element.writable_of_mem h hc

/-! ### Sheets -/

/-- Regions that move to the right stay writable. -/
private theorem writable_shiftMergesRight {sheet : Element} (h : sheet.Writable) (anchor : CellRef)
    (cols : Int) : (Layout.shiftMergesRight anchor cols sheet).Writable :=
  h.mapChild _ fun _ hmerges => hmerges.mapNamed _ fun _ hmerge => writable_moveRef hmerge _

/-- Regions that move down stay writable, and so are their clones. -/
private theorem writable_shiftMerges {merges : Element} (h : merges.Writable) (s : RowShift) :
    (s.shiftMerges merges).Writable := by
  -- A clone is the region's element without its children and with a new reference.
  have hclones : ∀ c ∈ (merges.named "mergeCell").flatMap s.clones, c.Writable := by
    intro c hc
    obtain ⟨merge, hmerge, hc⟩ := List.mem_flatMap.1 hc
    have hwritable := Element.writable_of_mem h (List.mem_of_mem_filter hmerge)
    unfold RowShift.clones at hc
    split at hc
    · split at hc
      · obtain ⟨k, -, rfl⟩ := List.mem_map.1 hc
        exact writable_setAttr hwritable.shallow (by decide) _
      · cases hc
    · cases hc
  unfold RowShift.shiftMerges
  exact writable_setAttr ((h.mapNamed _ fun _ hmerge => writable_moveRef hmerge _).pushAll hclones)
    (by decide) _

/-- A page break that moves stays writable. -/
private theorem writable_shiftBreak {brk : Element} (h : brk.Writable) (s : RowShift) :
    (s.shiftBreak brk).Writable := by
  unfold RowShift.shiftBreak
  split
  · split
    · exact writable_setAttr h (by decide) _
    · exact h
  · exact h

/-- So does the sheet whose rows move down. -/
private theorem writable_shiftSheet {sheet : Element} (h : sheet.Writable) (s : RowShift) :
    (s.shiftSheet sheet).Writable := by
  have hmerges := h.mapChild "mergeCells" fun _ hmerges => writable_shiftMerges hmerges s
  unfold RowShift.shiftSheet
  split
  · exact h
  · unfold RowShift.shiftBreaks
    split
    · exact hmerges.mapChild _ fun _ hbreaks => hbreaks.mapNamed _ fun _ hbrk =>
        writable_shiftBreak hbrk s
    · exact hmerges

/-- The link of a drawing is written with a name. -/
private theorem writable_attachDrawing {w : Worksheet} (h : w.doc.root.Writable) (id : String) :
    (w.attachDrawing id).doc.root.Writable :=
  h.insert _ (Element.writable_of_namedTag
    (.of_keys ["r:id"] rfl (by decide) (by decide) (by decide)))

namespace Pass

/-- What a pass changes of its sheet beside the rows. -/
theorem Change.writable {p p' : Pass} (h : Change p p')
    (hp : p.sheet.doc.root.Writable) : p'.sheet.doc.root.Writable := by
  cases h with
  | text | extendTables | picture | skip | rows | moveAnchors => exact hp
  | shiftRight anchor cols => exact writable_shiftMergesRight hp anchor cols
  | shiftDown shift => exact writable_shiftSheet hp shift
  | drawing hnone hsheet hcreate =>
    obtain ⟨rels, rels', id, -, -, -, rfl, -⟩ := Drawing.create_eq_ok hcreate
    obtain ⟨-, heq, -⟩ := Worksheet.withRels?_eq_some hsheet
    rw [heq]
    exact writable_attachDrawing (w := { p.sheet with rels := some rels' }) hp id

/-- Finishing puts back rows that are writable and edits nothing else but attributes. -/
theorem writable_finishSheet {given : Given} {p : Pass} (h : p.sheet.doc.root.Writable)
    (hrows : ∀ row ∈ p.rows.toList, row.Writable) :
    (p.finishSheet given).sheet.doc.root.Writable := by
  have hpushed := h.mapChild "sheetData" fun _ hdata => hdata.pushAll hrows
  have hextended : (extendDimension p.maxColsInserted p.rowsInserted
      (p.sheet.doc.root.mapChild "sheetData" (·.pushAll p.rows.toList))).Writable := by
    unfold extendDimension
    split
    · exact hpushed
    · exact hpushed.mapChild _ fun _ hdimension => writable_moveRef hdimension _
  exact hextended.mapChild _ fun _ hdata => hdata.mapNamed _ fun _ hrow =>
    hrow.mapNamed _ fun _ hcell => writable_dropCached hcell

/-- A sheet that can be written can be written after a pass. -/
theorem writable_of_run {options : FillOptions} {files : ImageFiles} {values : Substitutions}
    {p q : Pass} (hp : p.Fresh) (h : p.run options files values = .ok q)
    (hsheet : p.sheet.doc.Writable) : q.sheet.doc.Writable := by
  obtain ⟨r, hfill, rfl⟩ := run_eq_ok h
  have hbare : p.withoutRows.sheet.doc.root.Writable :=
    Element.Writable.mapChild hsheet _ fun _ hdata => hdata.removeElements
  -- The source rows are elements of the sheet.
  have hsource : ∀ row ∈ sourceRows p.sheet.doc.root, row.Writable := by
    intro row hrow
    unfold sourceRows at hrow
    split at hrow
    · rename_i data hdata
      exact Element.writable_of_mem
        (Element.writable_of_mem hsheet (List.mem_of_find?_eq_some hdata)) hrow
    · cases hrow
  -- The finished rows come from them by the edits that rules follow, and all else of the sheet by
  -- the changes of a pass.
  obtain ⟨done, hdone, hrows⟩ := RowRule.rows_of_fillSourceRows (P := Element.Writable)
    (fun row hrow => ⟨writableRows, (hsource row hrow).removeElements,
      fun _ hc => Element.writable_of_mem (hsource row hrow) hc, fun _ he => he⟩) hfill
  have hroot := (changes_of_fillSourceRows hfill).keep
    (I := fun r => r.sheet.doc.root.Writable) (fun _ _ hchange => hchange.writable) hbare
  refine writable_finishSheet hroot ?_
  rw [hdone, show p.withoutRows.rows = #[] from hp.rows]
  exact hrows

end Pass

end Fill

end SheetTemplate
