import SheetTemplate.Proofs.PlainPasses
import SheetTemplate.Proofs.RowLayout
import SheetTemplate.Proofs.TidyEdits

/-!
# Rows that a pass has finished

A finished row says its number, its cells have references on the row and stand in order after all
else that the row has inside, and its formulas show no values. A pass that finds no placeholder on
it writes all of this anew, and so it leaves the row as it is. Only references outside the sheet
cannot be read again.

`Settled` says this of all rows of a sheet. It does not depend on how texts are divided, so that it
holds of the sheet that is read back as well.

## Key results

- `settled_of_run`: every pass settles the rows of its sheet
- `placed_of_settled`: what a pass without placeholders makes of settled rows
-/

namespace SheetTemplate

open Text (natural32? add32 toList_toString eq_of_natural?_numeral)
open Xml (Element Node)

/-! ### Child elements at the end -/

namespace Xml

/-- An element whose child elements stand after all else that it has inside. -/
def Element.ElementsLast (e : Element) : Prop := e.removeElements.pushAll e.elements = e

/-- Elements at the end do not take part in joining texts. -/
private theorem joinText_append_elements (t : String) (nodes : List Node)
    (children : List Element) :
    joinText t (nodes ++ children.map .element) = joinText t nodes ++ children.map .element := by
  cases nodes with
  | nil =>
    cases children <;> by_cases ht : t = "" <;> simp [joinText, ht]
  | cons n r => cases n <;> by_cases ht : t = "" <;> simp [joinText, ht]

/-- Nor do they in tidying, except each by itself. -/
private theorem tidyAll_append_elements (nodes : List Node) (children : List Element) :
    Node.tidyAll (nodes ++ children.map .element) =
      Node.tidyAll nodes ++ (children.map Element.tidy).map .element := by
  induction nodes with
  | nil =>
    induction children with
    | nil => rfl
    | cons c r ih => simpa [Node.tidyAll] using ih
  | cons n r ih =>
    cases n with
    | text t =>
      rw [List.cons_append, Node.tidyAll, Node.tidyAll, ih, joinText_append_elements]
    | element c | cdata t | comment t => simp [Node.tidyAll, ih]

namespace Element

variable {e : Element}

/-- Tidying an element and putting tidy children at its end commute. -/
theorem tidy_pushAll (e : Element) (children : List Element) :
    (e.pushAll children).tidy = e.tidy.pushAll (children.map tidy) := by
  obtain ⟨name, attributes, nodes⟩ := e
  unfold pushAll
  simp only [tidy, tidyAll_append_elements]

/-- Elements put behind nodes that are none stand last. -/
theorem elementsLast_pushAll (h : e.elements = []) (children : List Element) :
    (e.pushAll children).ElementsLast := by
  unfold ElementsLast
  rw [removeElements_pushAll children h, elements_pushAll, h, List.nil_append]

/-- Attributes are no nodes. -/
theorem ElementsLast.setAttr (h : e.ElementsLast) (key value : String) :
    (e.setAttr key value).ElementsLast := congrArg (Element.setAttr · key value) h

/-- Further elements at the end keep the elements last. -/
theorem ElementsLast.pushAll (h : e.ElementsLast) (children : List Element) :
    (e.pushAll children).ElementsLast := by
  rw [← h, pushAll_pushAll]
  exact elementsLast_pushAll (elements_removeElements e) _

/-- An edit of elements keeps them where they are. -/
theorem ElementsLast.mapNamed (h : e.ElementsLast) (n : String) (f : Element → Element) :
    (e.mapNamed n f).ElementsLast := by
  rw [← h, mapNamed_pushAll]
  refine elementsLast_pushAll ?_ _
  rw [elements_mapNamed, elements_removeElements, List.map_nil]

/-- Texts that are joined stand before the elements as before. -/
theorem ElementsLast.tidy (h : e.ElementsLast) : e.tidy.ElementsLast := by
  rw [← h, tidy_pushAll]
  refine elementsLast_pushAll ?_ _
  rw [elements_tidy, elements_removeElements, List.map_nil]

end Element

end Xml

namespace Fill

/-! ### Cells -/

/-- A cell with a reference on the row with a number. Numbers outside the sheet may have lost digits
in it. -/
def OnRow (number : Nat) (c : Element) : Prop :=
  ∃ col row, c.attr? "r" = some { col, row : CellRef }.a1 ∧
    (0 < number → number ≤ maxRows → row = number)

/-- A cell that is given a reference on the row is on the row. -/
theorem onRow_setAttr (c : Element) (col number : Nat) :
    OnRow number (c.setAttr "r" { col, row := number : CellRef }.a1) :=
  ⟨col, number, Element.attr?_setAttr_self .., fun _ _ => rfl⟩

/-- Cells right of a cell are on its row. -/
private theorem onRow_offset {c : Element} {col number : Nat} (i : Nat)
    (h : c.attr? "r" = some ({ col, row := number : CellRef }.offset i 0).a1) : OnRow number c := by
  refine ⟨CellRef.moved col i, CellRef.moved number 0, h, fun hpos hle => ?_⟩
  have hmax : maxRows < Nat.pow 2 32 := by decide
  have hfirst : (max 1 ((number : Int) + 0)).toNat = number := by omega
  unfold CellRef.moved
  rw [hfirst, Nat.mod_eq_of_lt (by omega)]

/-- A cell that shows no value beside a formula. -/
def Uncached (c : Element) : Prop := c.named "f" = [] ∨ c.named "v" = []

/-- A cell from which the cached value is taken has none. -/
theorem uncached_dropCached (c : Element) : Uncached (dropCached c) := by
  unfold dropCached
  split
  · exact .inr (Element.named_removeNamed_self c "v")
  · rename_i hnone
    refine .inl (List.filter_eq_nil_iff.2 fun e he hname => hnone ?_)
    exact List.find?_isSome.2 ⟨e, he, hname⟩

/-- A cell that has none is left as it is. -/
theorem dropCached_of_uncached {c : Element} (h : Uncached c) : dropCached c = c := by
  unfold dropCached
  split
  · rename_i hsome
    obtain hnone | hnone := h
    · rw [Element.child?_eq_none hnone] at hsome
      cases hsome
    · exact Element.removeNamed_of_named hnone
  · rfl

/-- Tidying a cell keeps its reference. -/
theorem OnRow.tidy {number : Nat} {c : Element} (h : OnRow number c) : OnRow number c.tidy := by
  obtain ⟨col, row, hattr, hrow⟩ := h
  exact ⟨col, row, (c.attr?_tidy "r").trans hattr, hrow⟩

/-- Tidying a cell gives it no value. -/
theorem Uncached.tidy {c : Element} (h : Uncached c) : Uncached c.tidy := by
  unfold Uncached at h ⊢
  simpa using h

/-! ### Rows -/

/-- A row with a number, with cells on it. -/
structure CellsOnRow (number : Nat) (row : Element) : Prop where
  attr : row.attr? "r" = some (toString number)
  last : row.ElementsLast
  cells : ∀ c ∈ row.named "c", OnRow number c

/-- A row as a pass leaves it. -/
structure SettledRow (row : Element) : Prop where
  placed : ∃ number, CellsOnRow number row
  sorted : row.elements.Pairwise fun a b => sortColumn a ≤ sortColumn b
  uncached : row.name = "row" → ∀ c ∈ row.named "c", Uncached c

namespace CellsOnRow

variable {number : Nat} {row : Element}

/-- A row without its elements has its number and no cells. -/
private theorem bareRow (row : Element) (number : Nat) :
    CellsOnRow number (bareRow row number) where
  attr := by simp [Fill.bareRow]
  last := by
    have hnone := Element.elements_removeElements (row.setAttr "r" (toString number))
    unfold Fill.bareRow Element.ElementsLast
    rw [hnone, Element.pushAll_nil, Element.removeElements_of_elements hnone]
  cells c hc := by
    rw [Fill.bareRow, Element.named, Element.elements_removeElements] at hc
    cases hc

/-- A generated row has its own number and no cells. -/
private theorem newRow (row : Element) (anchor n : Nat) :
    CellsOnRow (add32 anchor n) (newRow row anchor n) where
  attr := by simp [Fill.newRow]
  last := rfl
  cells c hc := by cases hc

/-- Cells on the row may be put into it. -/
private theorem pushAll (h : CellsOnRow number row) {cells : List Element}
    (hcells : ∀ c ∈ cells, c.name = "c" → OnRow number c) :
    CellsOnRow number (row.pushAll cells) where
  attr := h.attr
  last := h.last.pushAll cells
  cells c hc := by
    rw [Element.named_pushAll, List.mem_append] at hc
    rcases hc with hold | hnew
    · exact h.cells c hold
    · obtain ⟨hmem, hname⟩ := List.mem_filter.1 hnew
      exact hcells c hmem (by simpa using hname)

/-- Widening the spans concerns neither number nor cells. -/
private theorem widenSpans (h : CellsOnRow number row) (cols : Int) :
    CellsOnRow number (widenSpans row cols) := by
  unfold Fill.widenSpans
  dsimp only
  split
  · exact ⟨(Element.attr?_setAttr_of_ne row (by decide) _).trans h.attr, h.last.setAttr _ _,
      h.cells⟩
  · exact h

/-- Cells on the row may be added with the spans widened for them. -/
private theorem addCells (h : CellsOnRow number row) {cells : List Element}
    (hcells : ∀ c ∈ cells, c.name = "c" → OnRow number c) (cols : Int) :
    CellsOnRow number (Pass.addCells cells cols row) := by
  unfold Pass.addCells
  dsimp only
  split
  · exact h.pushAll hcells
  · exact (h.pushAll hcells).widenSpans cols

/-- Sorting keeps the cells. -/
private theorem sortRow (h : CellsOnRow number row) : CellsOnRow number (Pass.sortRow row) where
  attr := h.attr
  last := Element.elementsLast_pushAll (Element.elements_removeElements row) _
  cells c hc := by
    unfold Pass.sortRow at hc
    rw [Element.named_pushAll, Element.named, Element.elements_removeElements, List.filter_nil,
      List.nil_append] at hc
    obtain ⟨hmem, hname⟩ := List.mem_filter.1 hc
    exact h.cells c (List.mem_filter.2 ⟨List.mem_mergeSort.1 hmem, hname⟩)

/-- A row whose cells are in order is settled once its formulas show no values. -/
theorem settled_uncachedRow (h : CellsOnRow number row)
    (hsorted : row.elements.Pairwise fun a b => sortColumn a ≤ sortColumn b) :
    SettledRow (uncachedRow row) := by
  have hcell : ∀ c : Element, sortColumn (dropCached c) = sortColumn c := fun c => by
    simp [sortColumn]
  -- Number, place and references first, then the order, then the formulas; each holds of the row
  -- before and is not touched by taking values away.
  refine ⟨⟨number, (attr?_uncachedRow row "r").trans h.attr, ?_, fun c hc => ?_⟩, ?_, ?_⟩
  · unfold uncachedRow
    split
    · exact h.last.mapNamed _ _
    · exact h.last
  · rw [named_uncachedRow] at hc
    obtain ⟨old, hold, rfl⟩ := List.mem_map.1 hc
    obtain ⟨col, n, hattr, hn⟩ := h.cells old hold
    exact ⟨col, n, (attr?_uncachedCell _ old "r").trans hattr, hn⟩
  · unfold uncachedRow
    split
    · rw [Element.elements_mapNamed, List.pairwise_map]
      refine hsorted.imp fun {a b} hab => ?_
      split <;> split <;> simpa only [hcell] using hab
    · exact hsorted
  · intro hname c hc
    rw [named_uncachedRow] at hc
    obtain ⟨old, -, rfl⟩ := List.mem_map.1 hc
    rw [name_uncachedRow] at hname
    rw [uncachedCell, if_pos (by simp [hname])]
    exact uncached_dropCached old

end CellsOnRow

/-! ### What a pass writes -/

variable {values : Substitutions} {strings : StringTable}

/-- A cell filled in from a template stays on the row of the template. -/
private theorem onRow_of_refilled {template c : Element} {number : Nat} (h : Refilled template c)
    (ht : OnRow number template) : OnRow number c := by
  obtain ⟨col, row, hattr, hrow⟩ := ht
  exact ⟨col, row, (h.attr "r" (by decide)).trans hattr, hrow⟩

/-- The cells of a list laid out to the right are on the row of their first. -/
private theorem onRow_of_laidOut {template : Element} {col number : Nat} {items : List Value}
    {cells : List Element}
    (h : LaidOut strings template { col, row := number } items cells) {c : Element}
    (hc : c ∈ cells) : OnRow number c := by
  obtain ⟨i, hi, rfl⟩ := List.getElem_of_mem hc
  have hitem := List.getElem?_eq_getElem (h.length ▸ hi : i < items.length)
  have hshows := h.shows i _ _ (List.getElem?_eq_getElem hi) hitem
  refine @onRow_offset _ col _ i ?_
  rw [hshows.refilled.attr "r" (by decide), Element.attr?_setAttr_self]

/-- The cells put for one source cell are on the row on which they are put. -/
private theorem onRow_of_placed {v : CellVisit} {col number : Nat} {group : List Element}
    (h : Placed values strings v { col, row := number } group) {c : Element} (hc : c ∈ group) :
    OnRow number c := by
  -- A list to the right, a single value in place of the placeholder, or a cell kept as it is.
  cases hitems : v.across? values with
  | some items => exact onRow_of_laidOut (h.list items hitems) hc
  | none =>
    by_cases hhas : v.HasPlaceholder
    · obtain ⟨filled, rfl, hfilled⟩ := h.single hhas hitems
      rw [List.mem_singleton.1 hc]
      exact onRow_of_refilled hfilled (onRow_setAttr v.element col number)
    · rw [h.plain hhas, List.mem_singleton] at hc
      rw [hc]
      exact onRow_setAttr v.element col number

/-- So are all the cells of a source row. -/
private theorem onRow_of_spread {number : Nat} {inserted : Int} {visits : List CellVisit}
    {groups : List (List Element)} (h : Spread values strings number inserted visits groups)
    {c : Element} (hc : c ∈ groups.flatten) : OnRow number c := by
  induction h with
  | nil => cases hc
  | cons hgroup _ ih =>
    rw [List.flatten_cons, List.mem_append] at hc
    exact hc.elim (onRow_of_placed hgroup) ih

/-- The cells of a field are on the row of the field. -/
private theorem onRow_of_fieldCells {template : Element} {col number : Nat} {value : Value}
    {cells : List Element} {cols : Int}
    (h : FieldCells strings template { col, row := number } value cells cols) {c : Element}
    (hc : c ∈ cells) : OnRow number c := by
  cases hitems : value.items? with
  | some items => exact onRow_of_laidOut (h.list items hitems).2 hc
  | none =>
    obtain ⟨-, shown, rfl, hshows⟩ := h.single hitems
    rw [List.mem_singleton.1 hc]
    exact onRow_of_refilled hshows.refilled (onRow_setAttr template col number)

/-- Generated rows that are numbered from the row after the one at hand on, with cells on them. -/
private def RowsBelow (number : Nat) (newRows : List Element) : Prop :=
  ∀ (i : Nat) (e : Element), newRows[i]? = some e → CellsOnRow (add32 number (i + 1)) e

/-- Fields put into the rows below go to the rows they are numbered for. -/
private theorem RowsBelow.fieldsPut {row template : Element} {col number : Nat}
    {fields : List Value} {rows rows' : List Element} (h : RowsBelow number rows)
    (hput : FieldsPut strings row template { col, row := number } fields rows rows') :
    RowsBelow number rows' := by
  obtain ⟨groups, hlength, hcells, hrows⟩ := hput
  intro i e he
  rw [hrows i] at he
  cases hgroup : groups[i]? with
  | none =>
    rw [hgroup] at he
    exact h i e he
  | some group =>
    rw [hgroup] at he
    cases he
    have hi : i < groups.length := (List.getElem?_eq_some_iff.1 hgroup).1
    have hfield := List.getElem?_eq_getElem (hlength ▸ hi : i < fields.length)
    refine CellsOnRow.addCells ?_
      (fun c hc _ => onRow_of_fieldCells (hcells i _ group hfield hgroup) hc) _
    -- A row that is not there yet is made for the field.
    cases hold : rows[i]? with
    | none => exact .newRow row number (i + 1)
    | some old => exact h i old hold

/-- The rows generated by all the lists of a source row are numbered from the row onwards and have
their own cells. -/
private theorem RowsBelow.grown {row : Element} {number : Nat} {inserted : Int}
    {visits : List CellVisit} {rows rows' : List Element} (h : RowsBelow number rows)
    (hgrown : Grown values strings row number inserted visits rows rows') :
    RowsBelow number rows' := by
  induction hgrown with
  | nil => exact h
  | cons hcell _ ih => exact ih (h.fieldsPut hcell)

/-- The copies that a generated row is given are on it. -/
private theorem onRow_of_plainCopies {number : Nat} {newRow : Element} {cells : List Element}
    {tableCols : List Nat} (h : CellsOnRow number newRow) {c : Element}
    (hc : c ∈ Pass.plainCopies cells tableCols newRow) : OnRow number c := by
  unfold Pass.plainCopies at hc
  rw [h.attr, Option.bind_some] at hc
  split at hc
  · cases hc
  · rename_i m hm
    rw [natural32?, toList_toString] at hm
    rw [← eq_of_natural?_numeral hm]
    obtain ⟨cell, -, rfl⟩ := List.mem_map.1 hc
    exact onRow_setAttr cell (sortColumn cell) m

/-- Cells copied to a generated row get references on that row. -/
private theorem CellsOnRow.withCopies {number : Nat} {newRow : Element}
    (h : CellsOnRow number newRow) (copied : Bool) (cells : List Element) (tableCols : List Nat) :
    CellsOnRow number (withCopies copied cells tableCols newRow) := by
  unfold Fill.withCopies
  split
  · exact h.pushAll fun c hc _ => onRow_of_plainCopies h hc
  · exact h

/-- The rows of a block are settled once their formulas show no values. -/
private theorem settled_of_rowDone {copied : Bool} {number : Nat} {v : RowVisit}
    {block : Element × List Element} (h : RowDone values strings copied number v block) :
    ∀ row ∈ block.1 :: block.2, SettledRow (uncachedRow row) := by
  intro row hrow
  rcases List.mem_cons.1 hrow with rfl | hrow
  -- The row itself: its cells are those put for its source cells, and the spread of them is on the
  -- row.
  · obtain ⟨cells, groups, hblock, hgroups, hspread⟩ := h.anchor
    have hcells : ∀ c ∈ sortCells cells, c.name = "c" → OnRow number c := by
      intro c hc hname
      refine onRow_of_spread hspread (hgroups ▸ List.mem_filter.2 ⟨List.mem_mergeSort.1 hc, ?_⟩)
      simp [hname]
    have hpushed := (CellsOnRow.bareRow v.row number).pushAll hcells
    have helements : ((bareRow v.row number).pushAll (sortCells cells)).elements =
        sortCells cells := by
      rw [Element.elements_pushAll, bareRow, Element.elements_removeElements, List.nil_append]
    rw [hblock]
    unfold Pass.finishedRow
    dsimp only
    split
    · refine hpushed.settled_uncachedRow ?_
      rw [helements]
      exact pairwise_sortCells cells
    · refine (hpushed.widenSpans _).settled_uncachedRow ?_
      rw [elements_widenSpans, helements]
      exact pairwise_sortCells cells
  -- A generated row: numbered by its place below the row, it may get copies, and it is sorted last.
  · obtain ⟨newRows, hgrown, hblock⟩ := h.grown
    have hbelow : RowsBelow number newRows :=
      RowsBelow.grown (fun i e he => by simp at he) hgrown
    rw [hblock] at hrow
    obtain ⟨newRow, hmem, rfl⟩ := List.mem_map.1 hrow
    obtain ⟨i, hi⟩ := List.getElem?_of_mem hmem
    refine ((hbelow i newRow hi).withCopies copied _ _).sortRow.settled_uncachedRow ?_
    rw [Pass.sortRow, Element.elements_pushAll, Element.elements_removeElements, List.nil_append]
    exact pairwise_sortCells _

/-- A sheet whose rows are as a pass leaves them, after all else that the list of rows has
inside. -/
def Settled (root : Element) : Prop :=
  ∀ data, root.child? "sheetData" = some data →
    data.ElementsLast ∧ ∀ row ∈ data.elements, SettledRow row

/-- All rows of a pass, those of one source row after those of another. -/
private theorem settled_of_rowsDone {copied : Bool} {above : Nat} {visits : List RowVisit}
    {blocks : List (Element × List Element)}
    (h : RowsDone values strings copied above visits blocks) :
    ∀ row ∈ (blocks.map uncachedBlock).flatMap fun b => b.1 :: b.2, SettledRow row := by
  induction h with
  | nil => simp
  | @cons above v vs block blocks hblock _ ih =>
    intro row hrow
    rw [List.map_cons, List.flatMap_cons, List.mem_append] at hrow
    refine hrow.elim (fun hrow => ?_) (ih row)
    -- The block is the rows as they were finished, without the values of formulas.
    have hmap : row ∈ (block.1 :: block.2).map uncachedRow := hrow
    obtain ⟨old, hold, rfl⟩ := List.mem_map.1 hmap
    exact settled_of_rowDone hblock old hold

/-- A pass settles the rows of its sheet. -/
theorem settled_of_run {options : FillOptions} {files : ImageFiles} {p q : Pass} (hp : p.Fresh)
    (h : p.run options files values = .ok q) : Settled q.sheet.doc.root := by
  obtain ⟨blocks, hrun⟩ := sheetRun_of_run hp h
  obtain ⟨rows, hdata⟩ := data_of_run hp h
  intro data hq
  have hrows : data.elements = (blocks.map uncachedBlock).flatMap fun b => b.1 :: b.2 := by
    have := hrun.rows
    rwa [sourceRows, hq] at this
  refine ⟨?_, hrows ▸ settled_of_rowsDone hrun.done⟩
  rw [hdata] at hq
  obtain ⟨source, -, rfl⟩ := Option.map_eq_some_iff.1 hq
  exact (Element.elementsLast_pushAll (Element.elements_removeElements source) rows).mapNamed _ _

/-! ### What is read back -/

/-- Tidying a cell leaves it in its column. -/
private theorem sortColumn_tidy (c : Element) : sortColumn c.tidy = sortColumn c := by
  simp [sortColumn]

/-- A settled row is still settled when it is read back. -/
private theorem SettledRow.tidy {row : Element} (h : SettledRow row) : SettledRow row.tidy := by
  obtain ⟨number, hplaced⟩ := h.placed
  refine ⟨⟨number, (row.attr?_tidy "r").trans hplaced.attr, hplaced.last.tidy, fun c hc => ?_⟩,
    ?_, fun hname c hc => ?_⟩
  · rw [Element.named_tidy] at hc
    obtain ⟨old, hold, rfl⟩ := List.mem_map.1 hc
    exact (hplaced.cells old hold).tidy
  · rw [Element.elements_tidy, List.pairwise_map]
    exact h.sorted.imp fun hab => by rwa [sortColumn_tidy, sortColumn_tidy]
  · rw [Element.named_tidy] at hc
    obtain ⟨old, hold, rfl⟩ := List.mem_map.1 hc
    exact (h.uncached ((row.name_tidy).symm.trans hname) old hold).tidy

/-- So is a sheet whose rows are all settled. -/
theorem Settled.tidy {root : Element} (h : Settled root) : Settled root.tidy := by
  intro data hdata
  rw [Element.child?_tidy] at hdata
  obtain ⟨old, hold, rfl⟩ := Option.map_eq_some_iff.1 hdata
  obtain ⟨hlast, hrows⟩ := h old hold
  refine ⟨hlast.tidy, fun row hrow => ?_⟩
  rw [Element.elements_tidy] at hrow
  obtain ⟨source, hsource, rfl⟩ := List.mem_map.1 hrow
  exact (hrows source hsource).tidy

/-! ### Another pass -/

/-- A row with a number inside the sheet, with references on it that can be read. What can be read
is inside the sheet. -/
structure RowInside (row : Element) : Prop where
  number : ∃ n, (row.attr? "r").bind natural32? = some n ∧ 0 < n ∧ n ≤ maxRows
  cells : ∀ c ∈ row.named "c", ((c.attr? "r").bind CellRef.parse?).isSome = true

instance (row : Element) : Decidable (RowInside row) :=
  decidable_of_iff
    (((row.attr? "r").bind natural32?).any (fun n => 0 < n ∧ n ≤ maxRows) = true ∧
      ∀ c ∈ row.named "c", ((c.attr? "r").bind CellRef.parse?).isSome = true)
    ⟨fun h => ⟨by simpa [Option.any_eq_true] using h.1, h.2⟩,
      fun h => ⟨by simpa [Option.any_eq_true] using h.number, h.cells⟩⟩

/-- A reference on a row is given anew as it was. -/
private theorem setAttr_of_onRow {number : Nat} {c : Element} (hrow : OnRow number c)
    (hpos : 0 < number) (hle : number ≤ maxRows)
    (hread : ((c.attr? "r").bind CellRef.parse?).isSome = true) (previous : Nat) :
    c.setAttr "r" { col := max (Pass.sourceColumn previous c) 1, row := number : CellRef }.a1 =
      c := by
  obtain ⟨col, row, hattr, hn⟩ := hrow
  obtain ⟨ref, href⟩ := Option.isSome_iff_exists.1 hread
  have hparse : CellRef.parse? { col, row : CellRef }.a1 = some ref := by
    rwa [hattr, Option.bind_some] at href
  have hcol : Pass.sourceColumn previous c = ref.col := by simp [Pass.sourceColumn, href]
  have hreadable := CellRef.readable_of_parse? hparse
  obtain rfl := CellRef.eq_of_parse?_a1 rfl rfl rfl hparse
  rw [hcol, Nat.max_eq_left hreadable.col_pos, ← hn hpos hle]
  exact Element.setAttr_of_attr? hattr

/-- Cells that are on the row and can be read are given the reference that they have. -/
private theorem placedCells_of_onRow {number : Nat} {elements : List Element}
    (hpos : 0 < number) (hle : number ≤ maxRows)
    (h : ∀ c ∈ elements.filter (·.name == "c"), OnRow number c ∧
      ((c.attr? "r").bind CellRef.parse?).isSome = true) (previous : Nat) :
    Pass.placedCells number previous elements = elements := by
  -- Along the elements of the row; those that are no cells are passed over on both sides.
  induction elements generalizing previous with
  | nil => rfl
  | cons c r ih =>
    unfold Pass.placedCells
    by_cases hname : c.name = "c"
    · rw [List.filter_cons_of_pos (by simp [hname])] at h
      obtain ⟨hrow, hread⟩ := h c List.mem_cons_self
      rw [if_pos hname]
      dsimp only
      rw [setAttr_of_onRow hrow hpos hle hread, ih fun c hc => h c (List.mem_cons_of_mem _ hc)]
    · rw [List.filter_cons_of_neg (by simp [hname])] at h
      rw [if_neg hname, ih h]

/-- A settled row inside the sheet is placed where it is. -/
private theorem placedRow_of_settled {row : Element} (h : SettledRow row) (hin : RowInside row)
    (previous : Nat) :
    Pass.placedRow (add32 (Pass.sourceNumber previous row) 0) row = row := by
  obtain ⟨number, hplaced⟩ := h.placed
  -- The number written on the row and the number read from it are the same, and adding no rows
  -- keeps it.
  obtain ⟨n, hn, hpos, hle⟩ := hin.number
  have hnumber : n = number := by
    rw [hplaced.attr, Option.bind_some, natural32?, toList_toString] at hn
    exact eq_of_natural?_numeral hn
  have hsource : Pass.sourceNumber previous row = number := by
    rw [Pass.sourceNumber, hn, Option.getD_some, hnumber]
  subst hnumber
  have hsum : add32 n 0 = n := Text.add32_zero (Nat.le_trans hle (by decide))
  rw [hsource, hsum, Pass.placedRow, placedCells_of_onRow hpos hle
    (fun c hc => ⟨hplaced.cells c hc, hin.cells c hc⟩), sortCells_of_pairwise h.sorted,
    Element.setAttr_of_attr? hplaced.attr]
  exact hplaced.last

/-- Hence so are all rows of a settled sheet. -/
private theorem placedRows_of_settled {rows : List Element}
    (h : ∀ row ∈ rows, SettledRow row ∧ RowInside row) (previous : Nat) :
    Pass.placedRows 0 previous rows = rows := by
  induction rows generalizing previous with
  | nil => rfl
  | cons row rows ih =>
    obtain ⟨hrow, hin⟩ := h row List.mem_cons_self
    unfold Pass.placedRows
    dsimp only
    rw [placedRow_of_settled hrow hin,
      ih fun row hmem => h row (List.mem_cons_of_mem _ hmem)]

/-- Taking cached values away from a settled row changes nothing. -/
private theorem uncachedRow_of_settled {row : Element} (h : SettledRow row) :
    uncachedRow row = row := by
  unfold uncachedRow
  split
  · rename_i hname
    refine (row.mapNamed_congr "c" fun c hc hcell => ?_).trans (row.mapNamed_of_id "c" fun c => rfl)
    exact dropCached_of_uncached
      (h.uncached (by simpa using hname) c (List.mem_filter.2 ⟨hc, by simp [hcell]⟩))
  · rfl

/-- Settled rows that are numbered anew and put back leave the sheet as it was. -/
theorem placed_of_settled {root : Element} (h : Settled root)
    (hin : ∀ row ∈ sourceRows root, RowInside row) :
    dropCachedValues (extendDimension 0 0
      ((root.mapChild "sheetData" Element.removeElements).mapChild "sheetData"
        (·.pushAll (Pass.placedRows 0 0 (sourceRows root))))) = root := by
  have hplaced : ∀ data, root.child? "sheetData" = some data →
      data.removeElements.pushAll (Pass.placedRows 0 0 (sourceRows root)) = data := by
    intro data hdata
    obtain ⟨hlast, hrows⟩ := h data hdata
    have hsource : sourceRows root = data.elements := by simp [sourceRows, hdata]
    rw [hsource] at hin ⊢
    rw [placedRows_of_settled fun row hrow => ⟨hrows row hrow, hin row hrow⟩]
    exact hlast
  -- The rows are taken out and the same rows put back.
  have hback : (root.mapChild "sheetData" Element.removeElements).mapChild "sheetData"
      (·.pushAll (Pass.placedRows 0 0 (sourceRows root))) = root := by
    rw [Element.mapChild_mapChild root "sheetData" Element.name_removeElements]
    exact (root.mapChild_congr "sheetData" hplaced).trans (root.mapChild_of_id _ fun _ => rfl)
  rw [extendDimension, if_pos ⟨rfl, rfl⟩, hback]
  -- What is left is to drop the cached values, of which settled rows have none.
  unfold dropCachedValues
  refine (root.mapChild_congr "sheetData" (g := id) fun data hdata => ?_).trans
    (root.mapChild_of_id _ fun _ => rfl)
  refine (data.mapNamed_congr "row" (g := id) fun row hrow hname => ?_).trans
    (data.mapNamed_of_id _ fun _ => rfl)
  have hrow := uncachedRow_of_settled ((h data hdata).2 row hrow)
  rwa [uncachedRow, if_pos (by simp [hname])] at hrow

end Fill

end SheetTemplate
