import SheetTemplate.Proofs.ReadMarkup
import SheetTemplate.Proofs.SettledRows
import SheetTemplate.Proofs.StringSlots

/-!
# What a cell shows after a pass

A value that is put into a cell takes the place of what the cell showed: its type and its value are
written anew. At the end of a pass the values beside formulas are dropped. So a cell without a
formula shows the value that was put into it, and a formula comes into any cell. But another value
that is put into a cell with a formula leaves the formula there, and then it is dropped with what
the formula showed before.

## Key results

- `Value.content`, `Displays`: what a value is to look like, and what a cell looks like
- `displays_insertValue`: a value in a cell without a formula
- `value_shown_unless_formula_stays`: which values a cell shows after a pass
- `formula_outlives_value`: a value that is lost
-/

namespace SheetTemplate

open Xml (Element Once)

/-! ### Contents -/

/-- What a cell can show. -/
inductive Content where
  /-- The result of an expression. -/
  | formula (expression : String)
  | truth (b : Bool)
  | numeral (digits : String)
  | text (s : String)

/-- What a cell is to show for a value. -/
def Value.content : Value → Content
  | .formula e => .formula ((afterEqual? e).getD e)
  | .text s => match afterEqual? s with
    | some e => .formula e
    | none => .text s
  | .bool b => .truth b
  | .number x => .numeral (Decimal.number x)
  | .date d => .numeral (Decimal.number d.serial)
  | .empty => .text ""
  | .list items => .text (Value.list items).toText
  | .record _ => .text ""
  | .image _ => .text ""

/-- The values that are to be calculated are those that a pass takes for formulas. -/
theorem Value.content_eq_formula_iff {value : Value} {e : String} :
    value.content = .formula e ↔ value.formula? = some e := by
  cases value with
  | formula e' => simp [content, formula?]
  | text s =>
    rw [content, formula?]
    cases afterEqual? s <;> simp
  | empty | number | bool | date | list | record | image => simp [content, formula?]

namespace Fill

/-- A cell without a formula, of a type, that shows a value as written. -/
structure ShowsPlain (cell : Element) (type : Option String) (shown : String) : Prop where
  formula : cell.named "f" = []
  type : cell.attr? "t" = type
  value : ∃ v, cell.child? "v" = some v ∧ v.text = shown

/-- A cell shows a content, a text by its slot in a string table. -/
def Displays (table : StringTable) (cell : Element) : Content → Prop
  | .formula e => cell.named "f" = [.ofText "f" e] ∧ cell.named "v" = [] ∧ cell.attr? "t" = none
  | .truth b => ShowsPlain cell (some "b") (if b then "1" else "0")
  | .numeral digits => ShowsPlain cell none digits
  | .text s => ∃ slot, ShowsPlain cell (some "s") (toString slot) ∧ table.get? slot = some s

/-- All of a cell that does not concern what it shows. -/
def bareCell (cell : Element) : Element := ((cell.removeAttr "t").removeNamed "v").removeNamed "f"

/-! ### Showing a value -/

/-- A bare cell has no type. -/
theorem attr?_bareCell {cell : Element} (h : Once "t" cell.attributes) :
    (bareCell cell).attr? "t" = none := Element.attr?_removeAttr_self h

/-- It has no formula. -/
theorem named_bareCell_formula (cell : Element) : (bareCell cell).named "f" = [] :=
  Element.named_removeNamed_self _ "f"

/-- It has no value. -/
theorem named_bareCell_value (cell : Element) : (bareCell cell).named "v" = [] := by
  rw [bareCell, Element.named_removeNamed_of_ne _ (by decide), Element.named_removeNamed_self]

/-- A bare cell is bare already. -/
theorem bareCell_of_once {cell : Element} (h : Once "t" cell.attributes) :
    bareCell (bareCell cell) = bareCell cell := by
  rw [bareCell, Element.removeAttr_of_attr? (attr?_bareCell h),
    Element.removeNamed_of_named (named_bareCell_value cell),
    Element.removeNamed_of_named (named_bareCell_formula cell)]

/-- Showing a text and removing an attribute commute. -/
theorem removeAttr_setShown (cell : Element) (text key : String) :
    (setShown cell text).removeAttr key = setShown (cell.removeAttr key) text := by
  unfold setShown
  have hchild : (cell.removeAttr key).child? "v" = cell.child? "v" := rfl
  rw [hchild]
  split <;> rfl

/-- What a cell shows is not part of the bare cell. -/
@[simp]
theorem bareCell_setShown (cell : Element) (text : String) :
    bareCell (setShown cell text) = bareCell cell := by
  rw [bareCell, removeAttr_setShown, removeNamed_setShown, bareCell]

/-- Neither is its type. -/
@[simp]
theorem bareCell_setType (cell : Element) (type : String) :
    bareCell (cell.setAttr "t" type) = bareCell cell := by
  rw [bareCell, Element.removeAttr_setAttr, bareCell]

/-- Nor the lack of one. -/
theorem bareCell_removeType {cell : Element} (h : Once "t" cell.attributes) :
    bareCell (cell.removeAttr "t") = bareCell cell := by
  rw [bareCell, Element.removeAttr_of_attr? (Element.attr?_removeAttr_self h), bareCell]

/-- A formula comes into a bare cell, in front of all else. -/
theorem insertFormula_eq (cell : Element) (e : String) :
    insertFormula cell e = (bareCell cell).insert 0 (.ofText "f" e) := rfl

/-- Nor a formula that was inserted. -/
theorem bareCell_insertFormula {cell : Element} (h : Once "t" cell.attributes) (e : String) :
    bareCell (insertFormula cell e) = bareCell cell := by
  have hname : (Element.ofText "f" e).name = "f" := rfl
  have hattr : ((bareCell cell).insert 0 (.ofText "f" e)).removeAttr "t" =
      ((bareCell cell).removeAttr "t").insert 0 (.ofText "f" e) := rfl
  rw [insertFormula_eq, bareCell, hattr,
    Element.removeNamed_insert_zero_of_ne _ (hname ▸ (by decide : "f" ≠ "v")),
    Element.removeNamed_insert_zero _ hname]
  exact bareCell_of_once h

/-- Nor a cached value. -/
@[simp]
theorem bareCell_dropCached (cell : Element) : bareCell (dropCached cell) = bareCell cell := by
  unfold dropCached
  split
  · show (((cell.removeAttr "t").removeNamed "v").removeNamed "v").removeNamed "f" = _
    rw [Element.removeNamed_removeNamed, bareCell]
  · rfl

/-- Only what a cell shows depends on the value that is put into it. -/
theorem bareCell_insertValue (table : StringTable) {cell : Element}
    (h : Once "t" cell.attributes) (value : Value) :
    bareCell (insertValue table cell value).2 = bareCell cell := by
  unfold insertValue
  split
  · exact bareCell_insertFormula h _
  · split
    · simp
    · simp [bareCell_removeType h]
    · simp [bareCell_removeType h]
    · simp [insertText]

/-- A cell without a formula shows the text it was given, under its type. -/
theorem showsPlain_setShown (cell : Element) (h : cell.named "f" = []) (text : String) :
    ShowsPlain (setShown cell text) (cell.attr? "t") text where
  formula := by rw [named_setShown_of_ne cell text (by decide), h]
  type := attr?_setShown cell text "t"
  value := child?_setShown cell text

/-- A formula comes into any cell. -/
theorem displays_insertFormula (table : StringTable) {cell : Element}
    (h : Once "t" cell.attributes) (e : String) :
    Displays table (insertFormula cell e) (.formula e) := by
  have hname : (Element.ofText "f" e).name = "f" := rfl
  rw [insertFormula_eq]
  refine ⟨?_, ?_, attr?_bareCell h⟩
  · rw [Element.named_insert_zero, hname, if_pos rfl, named_bareCell_formula]
  · rw [Element.named_insert_zero, hname, if_neg (by decide), named_bareCell_value]

/-- Any other value comes into a cell that has no formula. -/
theorem displays_insertValue {table : StringTable} (htable : table.Indexed) {cell : Element}
    (honce : Once "t" cell.attributes) (hcell : cell.named "f" = []) {value : Value}
    (hplain : value.formula? = none) :
    Displays (insertValue table cell value).1 (insertValue table cell value).2 value.content := by
  -- Texts go by way of the table, numbers stand in the cell as they are.
  have htext (text : String) : Displays (insertText table cell text).1
      (insertText table cell text).2 (.text text) := by
    have hshown := showsPlain_setShown (cell.setAttr "t" "s") hcell
      (toString (table.index text).2)
    rw [Element.attr?_setAttr_self] at hshown
    exact ⟨_, hshown, StringTable.get?_index htable text⟩
  have hnumeral (digits : String) :
      ShowsPlain (setShown (cell.removeAttr "t") digits) none digits := by
    have hshown := showsPlain_setShown (cell.removeAttr "t") hcell digits
    rwa [Element.attr?_removeAttr_self honce] at hshown
  unfold insertValue
  rw [hplain]
  cases value with
  | bool b =>
    have hshown := showsPlain_setShown (cell.setAttr "t" "b") hcell (if b then "1" else "0")
    rwa [Element.attr?_setAttr_self] at hshown
  | number x => exact hnumeral _
  | date d => exact hnumeral _
  | formula e => cases hplain
  | text s =>
    have hs : Value.afterEqual? s = none := hplain
    rw [Value.content, hs]
    exact htext s
  | empty | list | record | image => exact htext _

/-! ### Dropping values beside formulas -/

/-- The cell at a place in a sheet. -/
def sheetCell? (sheet : Element) (i j : Nat) : Option Element := do
  let data ← sheet.child? "sheetData"
  let row ← (data.named "row")[i]?
  (row.named "c")[j]?

/-- Values beside formulas are dropped in every cell. -/
theorem sheetCell?_dropCachedValues (sheet : Element) (i j : Nat) :
    sheetCell? (dropCachedValues sheet) i j = (sheetCell? sheet i j).map dropCached := by
  have hrow : ∀ row : Element, (row.mapNamed "c" dropCached).name = row.name := fun _ => rfl
  have hdata : ∀ data : Element,
      (data.mapNamed "row" (·.mapNamed "c" dropCached)).name = data.name := fun _ => rfl
  -- The edit keeps the rows and the cells at their places, so each cell is looked up as before.
  unfold sheetCell? dropCachedValues
  rw [Element.child?_mapChild_self _ _ hdata]
  cases sheet.child? "sheetData" with
  | none => rfl
  | some data =>
    simp only [Option.map_some, Option.bind_eq_bind, Option.bind_some,
      Element.named_mapNamed _ _ hrow, List.getElem?_map]
    cases (data.named "row")[i]? with
    | none => rfl
    | some row =>
      simp only [Option.map_some, Option.bind_some, Element.named_mapNamed _ _ name_dropCached,
        List.getElem?_map]

/-- Beside a formula that stays, no value stays. -/
theorem dropCached_of_formula {cell : Element} (h : cell.named "f" ≠ []) :
    dropCached cell = cell.removeNamed "v" := by
  unfold dropCached
  rw [if_pos]
  obtain ⟨f, fs, hf⟩ := List.exists_cons_of_ne_nil h
  rw [Element.child?_eq_head?, hf]
  rfl

/-- A value other than a formula leaves the formula of a cell. -/
theorem named_insertValue {value : Value} (hplain : value.formula? = none) (table : StringTable)
    (cell : Element) : (insertValue table cell value).2.named "f" = cell.named "f" := by
  unfold insertValue
  rw [hplain]
  cases value <;> exact named_setShown_of_ne _ _ (by decide)

/-- A cell that displays something has a formula if it is the result of one, and otherwise none. -/
theorem Displays.not_of_formula {table : StringTable} {cell : Element} {content : Content}
    (h : cell.named "f" ≠ []) (hplain : ∀ e, content ≠ .formula e) :
    ¬Displays table cell content := by
  intro hshown
  cases content with
  | formula e => exact hplain e rfl
  | truth b => exact h (ShowsPlain.formula hshown)
  | numeral digits => exact h (ShowsPlain.formula hshown)
  | text s =>
    obtain ⟨slot, hslot, -⟩ := hshown
    exact h hslot.formula

/-- A formula anywhere, and any other value without a formula, is shown for good. -/
theorem displays_dropCached {table : StringTable} (htable : table.Indexed) {cell : Element}
    (honce : Once "t" cell.attributes) {value : Value}
    (h : (∃ e, value.content = .formula e) ∨ cell.named "f" = []) :
    Displays (insertValue table cell value).1 (dropCached (insertValue table cell value).2)
      value.content := by
  -- A formula replaces what was there; any other value needs a cell that has none.
  cases hformula : value.formula? with
  | some e =>
    have hinserted : insertValue table cell value = (table, insertFormula cell e) := by
      simp only [insertValue, hformula]
    have hshown := displays_insertFormula table honce e
    rw [hinserted, Value.content_eq_formula_iff.2 hformula,
      dropCached_of_uncached (.inr hshown.2.1)]
    exact hshown
  | none =>
    have hcell : cell.named "f" = [] := h.resolve_left fun ⟨e, he⟩ => by
      rw [Value.content_eq_formula_iff, hformula] at he
      cases he
    rw [dropCached_of_uncached (.inl (by rw [named_insertValue hformula, hcell]))]
    exact displays_insertValue htable honce hcell hformula

/-- Any other value in a cell with a formula is dropped, and the formula stays. -/
theorem named_dropCached_of_formula (table : StringTable) {cell : Element} {value : Value}
    (hplain : ∀ e, value.content ≠ .formula e) (hcell : cell.named "f" ≠ []) :
    (dropCached (insertValue table cell value).2).named "f" = cell.named "f" ∧
      (dropCached (insertValue table cell value).2).named "v" = [] := by
  have hnone : value.formula? = none := Option.eq_none_iff_forall_ne_some.2 fun e he =>
    hplain e (Value.content_eq_formula_iff.2 he)
  have hkept := named_insertValue hnone table cell
  rw [dropCached_of_formula (hkept ▸ hcell)]
  exact ⟨(Element.named_removeNamed_of_ne _ (by decide)).trans hkept,
    Element.named_removeNamed_self _ _⟩

/-- A value is put into a cell of a sheet, and the values beside formulas are dropped. Then the cell
shows the value exactly if this is a formula or the cell had none; otherwise the formula stays,
without any value. All else of the cell is as it was, and so is every older slot of the table. Both
assumptions always hold: a table stays `Indexed` under all operations (`indexed_run`), and no cell
that was read has an attribute twice (`once_of_parse`). -/
theorem value_shown_unless_formula_stays {table : StringTable} (htable : table.Indexed)
    {cell : Element} (honce : Once "t" cell.attributes) (value : Value) {sheet : Element}
    {i j : Nat} (hplace : sheetCell? sheet i j = some (insertValue table cell value).2) :
    ∃ final, sheetCell? (dropCachedValues sheet) i j = some final ∧
      (Displays (insertValue table cell value).1 final value.content ↔
        (∃ e, value.content = .formula e) ∨ cell.named "f" = []) ∧
      ((∀ e, value.content ≠ .formula e) → cell.named "f" ≠ [] →
        final.named "f" = cell.named "f" ∧ final.named "v" = []) ∧
      bareCell final = bareCell cell ∧
      table.GrowsTo (insertValue table cell value).1 := by
  have hfinal : sheetCell? (dropCachedValues sheet) i j =
      some (dropCached (insertValue table cell value).2) := by
    rw [sheetCell?_dropCachedValues, hplace, Option.map_some]
  have hbare : bareCell (dropCached (insertValue table cell value).2) = bareCell cell := by
    rw [bareCell_dropCached, bareCell_insertValue table honce]
  refine ⟨_, hfinal, ⟨fun hshown => ?_, displays_dropCached htable honce⟩,
    named_dropCached_of_formula table, hbare, insertValue_growsTo table cell value⟩
  -- Conversely a cell that keeps its formula has lost the value, and shows neither.
  by_contra hlost
  obtain ⟨hplain, hcell⟩ := not_or.1 hlost
  rw [not_exists] at hplain
  have hkept := (named_dropCached_of_formula table hplain hcell).1
  exact Displays.not_of_formula (hkept ▸ hcell) hplain hshown

/-- A cell that shows the text of the first slot, perhaps as the result of a formula. -/
def textCell (formulas : List Element) : Element :=
  .ofChildren "c" [("r", "A1"), ("s", "3"), ("t", "s")]
    (formulas ++ [.ofText "v" "0", .ofText "extLst" ""])

/-- A sheet with one cell. -/
def oneCellSheet (cell : Element) : Element :=
  .ofChildren "worksheet" [] [.ofChildren "sheetData" [] [.ofChildren "row" [] [cell]]]

/-- The sheet of the sample has one cell. -/
private theorem sheetCell?_oneCellSheet {cell : Element} (h : cell.name = "c") :
    sheetCell? (oneCellSheet cell) 0 0 = some cell := by
  simp [sheetCell?, oneCellSheet, Element.ofChildren, Element.child?, Element.named,
    Element.elements, Xml.Node.element?, h]

/-- A text put into a plain cell is shown after the pass. -/
theorem value_shown_unless_formula_stays_sample :
    (StringTable.ofList ["$\x7bx\x7d"]).Indexed ∧ Once "t" (textCell []).attributes ∧
      (insertValue (.ofList ["$\x7bx\x7d"]) (textCell []) (.text "new")).1.toList =
        ["$\x7bx\x7d", "new"] ∧
      ∃ final,
        sheetCell? (dropCachedValues (oneCellSheet
          (insertValue (.ofList ["$\x7bx\x7d"]) (textCell []) (.text "new")).2)) 0 0 =
            some final ∧
        Displays (insertValue (.ofList ["$\x7bx\x7d"]) (textCell []) (.text "new")).1 final
          (.text "new") ∧
        bareCell final =
          { name := "c", attributes := [("r", "A1"), ("s", "3")],
            children := [.element (.ofText "extLst" "")] } := by
  have htable := StringTable.indexed_ofList ["$\x7bx\x7d"]
  have honce : Once "t" (textCell []).attributes := by
    simp [Once, textCell, Element.ofChildren]
  have hname : (insertValue (.ofList ["$\x7bx\x7d"]) (textCell []) (.text "new")).2.name = "c" := by
    simp [textCell, Element.ofChildren]
  obtain ⟨final, hfinal, hshown, -, hbare, -⟩ :=
    value_shown_unless_formula_stays htable honce (.text "new") (sheetCell?_oneCellSheet hname)
  exact ⟨htable, honce, by decide +kernel, final, hfinal, hshown.2 (.inr (by decide +kernel)),
    hbare.trans (by decide +kernel)⟩

/-- A text that is put beside a formula is lost when the cached values are dropped. -/
theorem formula_outlives_value :
    ¬∀ (table : StringTable) (cell : Element) (value : Value) (sheet : Element) (i j : Nat),
      table.Indexed → Once "t" cell.attributes → cell.name = "c" → cell.attr? "t" = some "s" →
      (cell.child? "v").isSome = true → value.items? = none →
      (∀ source, value ≠ .image source) →
      sheetCell? sheet i j = some (insertValue table cell value).2 →
      ∃ final, sheetCell? (dropCachedValues sheet) i j = some final ∧
        Displays (insertValue table cell value).1 final value.content ∧
        bareCell final = bareCell cell ∧ table.GrowsTo (insertValue table cell value).1 := by
  -- The same cell with a formula in it, which outlives the text.
  intro hall
  have hname : (insertValue (.ofList ["$\x7bx\x7d"]) (textCell [.ofText "f" "B1"])
      (.text "new")).2.name = "c" := by
    simp [textCell, Element.ofChildren]
  obtain ⟨final, hfinal, ⟨slot, hplain, -⟩, -⟩ := hall (.ofList ["$\x7bx\x7d"])
    (textCell [.ofText "f" "B1"]) (.text "new") _ 0 0 (StringTable.indexed_ofList _)
    (by simp [Once, textCell, Element.ofChildren]) rfl rfl rfl rfl (fun _ h => by cases h)
    (sheetCell?_oneCellSheet hname)
  rw [sheetCell?_dropCachedValues, sheetCell?_oneCellSheet hname, Option.map_some] at hfinal
  have hformula := hplain.formula
  rw [← Option.some.inj hfinal] at hformula
  exact absurd hformula (by decide +kernel)

end Fill

end SheetTemplate
