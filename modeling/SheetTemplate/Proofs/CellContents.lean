import SheetTemplate.Fill.Expansion
import SheetTemplate.Proofs.ElementEdits

/-!
# What filling a cell keeps

Showing a value in a cell adds at most one text to the string table, and concerns no attribute of
the cell but its type. The cells that a list is laid out in are copies of one cell, each showing
its item.

## Key results

- `StringTable.GrowsTo`: a table that only got new slots at its end
- `insertValue_growsTo`, `attr?_insertValue`: what showing a value does to table and cell
- `length_layOut`, `getElem?_layOut`: the cells of a list
-/

namespace SheetTemplate

open Xml (Element Node)

namespace StringTable

/-- The second table has the slots of the first and perhaps more after them. -/
def GrowsTo (t t' : StringTable) : Prop := t.toList <+: t'.toList

theorem GrowsTo.refl (t : StringTable) : t.GrowsTo t := List.prefix_refl _

theorem GrowsTo.trans {t t' t'' : StringTable} (h : t.GrowsTo t') (h' : t'.GrowsTo t'') :
    t.GrowsTo t'' := List.IsPrefix.trans h h'

/-- A slot keeps its text. -/
theorem GrowsTo.get? {t t' : StringTable} (h : t.GrowsTo t') {slot : Nat} {text : String}
    (hslot : t.get? slot = some text) : t'.get? slot = some text := by
  obtain ⟨r, hr⟩ := h
  simp only [StringTable.get?, ← Array.getElem?_toList] at hslot ⊢
  have htable : t'.slots.toList = t.slots.toList ++ r := hr.symm
  rw [htable, List.getElem?_append_left (List.getElem?_eq_some_iff.1 hslot).1, hslot]

/-- A text that is added goes behind the slots there are. -/
theorem growsTo_append (t : StringTable) (text : String) : t.GrowsTo (t.append text).1 := by
  unfold GrowsTo
  rw [toList_append]
  exact List.prefix_append _ _

/-- Looking a text up leaves the table as it is or adds the text. -/
theorem of_index {p : StringTable → Prop} {t : StringTable} {text : String} (same : p t)
    (added : p (t.append text).1) : p (t.index text).1 := by
  unfold index
  split
  · exact same
  · exact added

/-- A text that is looked up is found or added. -/
theorem growsTo_index (t : StringTable) (text : String) : t.GrowsTo (t.index text).1 :=
  of_index (p := t.GrowsTo) (GrowsTo.refl t) (growsTo_append t text)

end StringTable

namespace Fill

/-! ### Showing a value -/

/-- A cell keeps its name when it shows another text. -/
@[simp]
theorem name_setShown (cell : Element) (text : String) : (setShown cell text).name = cell.name := by
  unfold setShown
  split <;> rfl

/-- It keeps its attributes. -/
@[simp]
theorem attr?_setShown (cell : Element) (text key : String) :
    (setShown cell text).attr? key = cell.attr? key := by
  unfold setShown
  split <;> rfl

/-- What a cell shows can be read off it. -/
theorem child?_setShown (cell : Element) (text : String) :
    ∃ v, (setShown cell text).child? "v" = some v ∧ v.text = text := by
  -- The cell has a value, which gets the text, or a value is added.
  unfold setShown
  split
  · rename_i hsome
    obtain ⟨v, hv⟩ := Option.isSome_iff_exists.1 hsome
    refine ⟨v.setText text, ?_, Element.text_setText v text⟩
    rw [Element.child?_mapChild_self _ _ fun e => Element.name_setText e text, hv]
    rfl
  · rename_i hnone
    refine ⟨.ofText "v" text, ?_, by simp [Element.ofText, Element.text, Node.content, String.join]⟩
    have hold : cell.elements.find? (·.name == "v") = none := by
      simpa [Element.child?] using hnone
    simp [Element.child?, hold, Element.ofText]

/-- Its other children are those it had. -/
theorem named_setShown_of_ne (cell : Element) (text : String) {n : String} (h : n ≠ "v") :
    (setShown cell text).named n = cell.named n := by
  unfold setShown
  split
  · exact Element.named_mapChild_of_ne cell (fun v => Element.name_setText v text) h
  · have hname : ((Element.ofText "v" text).name == n) = false := beq_eq_false_iff_ne.2 h.symm
    simp [Element.named, hname]

/-- So is the first of each name. -/
theorem child?_setShown_of_ne (cell : Element) (text : String) {n : String} (h : n ≠ "v") :
    (setShown cell text).child? n = cell.child? n := by
  rw [Element.child?_eq_head?, Element.child?_eq_head?, named_setShown_of_ne cell text h]

/-- Without its value it is what it was without its value. -/
theorem removeNamed_setShown (cell : Element) (text : String) :
    (setShown cell text).removeNamed "v" = cell.removeNamed "v" := by
  unfold setShown
  split
  · exact Element.removeNamed_mapChild cell "v" fun v => Element.name_setText v text
  · exact Element.removeNamed_push cell (.ofText "v" text) "v" rfl

/-- A cell into which a text is inserted keeps its name. -/
@[simp]
theorem name_insertText (t : StringTable) (cell : Element) (text : String) :
    (insertText t cell text).2.name = cell.name := by
  simp [insertText]

/-- It keeps its attributes but the type. -/
theorem attr?_insertText (t : StringTable) (cell : Element) (text : String) {key : String}
    (hkey : key ≠ "t") : (insertText t cell text).2.attr? key = cell.attr? key := by
  simp [insertText, Element.attr?_setAttr_of_ne _ hkey]

/-- The table may have got the text as a new slot. -/
theorem insertText_growsTo (t : StringTable) (cell : Element) (text : String) :
    t.GrowsTo (insertText t cell text).1 := StringTable.growsTo_index t text

/-- A value adds a text to the table or nothing. -/
theorem insertValue_growsTo (t : StringTable) (cell : Element) (value : Value) :
    t.GrowsTo (insertValue t cell value).1 := by
  unfold insertValue
  split
  · exact StringTable.GrowsTo.refl t
  · split
    · exact StringTable.GrowsTo.refl t
    · exact StringTable.GrowsTo.refl t
    · exact StringTable.GrowsTo.refl t
    · exact insertText_growsTo t cell _

/-- A cell into which a value is inserted keeps its name. -/
@[simp]
theorem name_insertValue (t : StringTable) (cell : Element) (value : Value) :
    (insertValue t cell value).2.name = cell.name := by
  unfold insertValue
  split
  · simp [insertFormula]
  · split <;> simp

/-- Only the type of a cell depends on what it shows. -/
theorem attr?_insertValue (t : StringTable) (cell : Element) (value : Value) {key : String}
    (hkey : key ≠ "t") : (insertValue t cell value).2.attr? key = cell.attr? key := by
  unfold insertValue
  split
  · simp [insertFormula, Element.attr?_removeAttr_of_ne _ hkey]
  · split
    · simp [Element.attr?_setAttr_of_ne _ hkey]
    · simp [Element.attr?_removeAttr_of_ne _ hkey]
    · simp [Element.attr?_removeAttr_of_ne _ hkey]
    · exact attr?_insertText t cell _ hkey

/-- What a cell becomes when it shows a value whose text, if it needs one, is in a table. -/
def Shows (strings : StringTable) (template : Element) (value : Value) (cell : Element) : Prop :=
  ∃ t, (insertValue t template value).1.GrowsTo strings ∧ cell = (insertValue t template value).2

theorem Shows.mono {strings strings' : StringTable} {template cell : Element} {value : Value}
    (h : Shows strings template value cell) (hs : strings.GrowsTo strings') :
    Shows strings' template value cell := by
  obtain ⟨t, ht, hcell⟩ := h
  exact ⟨t, ht.trans hs, hcell⟩

/-! ### Laying a list out -/

/-- Laying out a list adds texts to the table and removes none. -/
theorem layOutFrom_growsTo (template : Element) (cell : CellRef) (distance : Nat)
    (strings : StringTable) (items : List Value) :
    strings.GrowsTo (layOutFrom template cell distance strings items).1 := by
  induction items generalizing distance strings with
  | nil => exact StringTable.GrowsTo.refl strings
  | cons item items ih => exact (insertValue_growsTo strings _ item).trans (ih _ _)

/-- So it is from the place of the cell itself. -/
theorem layOut_growsTo (strings : StringTable) (template : Element) (cell : CellRef)
    (items : List Value) : strings.GrowsTo (layOut strings template cell items).1 :=
  layOutFrom_growsTo template cell 0 strings items

/-- Each item of the list has a cell. -/
private theorem length_layOutFrom (template : Element) (cell : CellRef) (distance : Nat)
    (strings : StringTable) (items : List Value) :
    (layOutFrom template cell distance strings items).2.length = items.length := by
  induction items generalizing distance strings with
  | nil => rfl
  | cons item items ih => simp [layOutFrom, ih]

/-- There is one cell for each item. -/
@[simp]
theorem length_layOut (strings : StringTable) (template : Element) (cell : CellRef)
    (items : List Value) : (layOut strings template cell items).2.length = items.length :=
  length_layOutFrom template cell 0 strings items

/-- The cell of an item is at its distance, and shows the item. -/
private theorem getElem?_layOutFrom {template : Element} {cell : CellRef} {distance : Nat}
    {strings : StringTable} {items : List Value} {i : Nat} {c : Element} {item : Value}
    (hc : (layOutFrom template cell distance strings items).2[i]? = some c)
    (hitem : items[i]? = some item) :
    Shows (layOutFrom template cell distance strings items).1
      (template.setAttr "r" (cell.offset ((distance + i : Nat) : Int) 0).a1) item c := by
  -- Along the items; the later ones may make the table longer, which the cell of the first does not
  -- mind.
  induction items generalizing distance strings i with
  | nil => simp at hitem
  | cons first items ih =>
    cases i with
    | zero =>
      simp only [List.getElem?_cons_zero, Option.some.injEq] at hitem
      simp only [layOutFrom, List.getElem?_cons_zero, Option.some.injEq] at hc
      subst hitem hc
      exact ⟨strings, layOutFrom_growsTo template cell (distance + 1) _ items, rfl⟩
    | succ i =>
      simp only [List.getElem?_cons_succ] at hitem
      simp only [layOutFrom, List.getElem?_cons_succ] at hc
      have := ih hc hitem
      rwa [Nat.add_right_comm, Nat.add_assoc] at this

/-- Each cell shows its item, as far to the right as the item stands in the list. -/
theorem getElem?_layOut {strings : StringTable} {template : Element} {cell : CellRef}
    {items : List Value} {i : Nat} {c : Element} {item : Value}
    (hc : (layOut strings template cell items).2[i]? = some c) (hitem : items[i]? = some item) :
    Shows (layOut strings template cell items).1
      (template.setAttr "r" (cell.offset (i : Int) 0).a1) item c := by
  have := getElem?_layOutFrom hc hitem
  rwa [Nat.zero_add] at this

end Fill

end SheetTemplate
