import SheetTemplate.Proofs.ElementEdits
import SheetTemplate.Worksheet

/-!
# The order of the elements of a worksheet

The schema of a worksheet lists the elements that it may have inside in the order in which they
stand there, most of them once at most. A drawing that is added comes in front of the first element
that the schema has behind it. Since all of these are known, whatever elements there are, the
drawing stands where the schema wants it.

## Key results

- `InSchemaOrder`: elements in the order of a schema
- `InSchemaOrder.split`: elements in the order of a schema in two parts
- `elements_attachDrawing`: the elements around a new drawing
- `attachDrawing_in_order`: a new drawing is at its place, and is the drawing of the sheet
-/

namespace SheetTemplate

open Xml (Element Node)

/-! ### Sequences of elements -/

/-- A member of a sequence of elements: their name, and whether there may be more than one. -/
structure Particle where
  name : String
  repeats : Bool := false

/-- Elements with these names stand in the order of a schema, none too often. -/
inductive InSchemaOrder : List Particle → List String → Prop where
  | nil : InSchemaOrder [] []
  | skip (p : Particle) {ps : List Particle} {ns : List String} (h : InSchemaOrder ps ns) :
      InSchemaOrder (p :: ps) ns
  | one (p : Particle) {ps : List Particle} {ns : List String} (h : InSchemaOrder ps ns) :
      InSchemaOrder (p :: ps) (p.name :: ns)
  | more {p : Particle} {ps : List Particle} {ns : List String} (hp : p.repeats = true)
      (h : InSchemaOrder (p :: ps) ns) : InSchemaOrder (p :: ps) (p.name :: ns)

namespace InSchemaOrder

variable {ps qs : List Particle} {ns : List String}

/-- Two parts in order are in the order of both schemas. -/
theorem append {ms : List String} (h : InSchemaOrder ps ns) (h' : InSchemaOrder qs ms) :
    InSchemaOrder (ps ++ qs) (ns ++ ms) := by
  induction h with
  | nil => exact h'
  | skip p h ih => exact .skip p ih
  | one p h ih => exact .one p ih
  | more hp h ih => exact .more hp ih

/-- Elements in the order of a schema in two parts are divided as it is. -/
theorem split (h : InSchemaOrder (ps ++ qs) ns) :
    ∃ before after, ns = before ++ after ∧ InSchemaOrder ps before ∧ InSchemaOrder qs after := by
  induction ps generalizing ns with
  | nil => exact ⟨[], ns, rfl, .nil, h⟩
  | cons p ps ih =>
    rw [List.cons_append] at h
    -- On how the elements go through the first member: it may take several of them.
    generalize hschema : p :: (ps ++ qs) = schema at h
    induction h with
    | nil => cases hschema
    | skip _ h =>
      cases hschema
      obtain ⟨before, after, rfl, hbefore, hafter⟩ := ih h
      exact ⟨before, after, rfl, .skip p hbefore, hafter⟩
    | one _ h =>
      cases hschema
      obtain ⟨before, after, rfl, hbefore, hafter⟩ := ih h
      exact ⟨p.name :: before, after, rfl, .one p hbefore, hafter⟩
    | more hp _ ihmore =>
      cases hschema
      obtain ⟨before, after, rfl, hbefore, hafter⟩ := ihmore rfl
      exact ⟨p.name :: before, after, rfl, .more hp hbefore, hafter⟩

/-- Only elements that the schema has are in its order. -/
theorem mem_names (h : InSchemaOrder ps ns) {n : String} (hn : n ∈ ns) :
    n ∈ ps.map Particle.name := by
  -- On the derivation: every name was taken for a part of the schema.
  induction h with
  | nil => cases hn
  | skip p h ih => exact List.mem_cons_of_mem _ (ih hn)
  | one p h ih =>
    rcases List.mem_cons.1 hn with rfl | hn
    · exact List.mem_cons_self
    · exact List.mem_cons_of_mem _ (ih hn)
  | more hp h ih =>
    rcases List.mem_cons.1 hn with rfl | hn
    · exact List.mem_cons_self
    · exact ih hn

/-- A member of the schema that no element belongs to is passed over. -/
theorem tail {p : Particle} (h : InSchemaOrder (p :: ps) ns) (hp : p.name ∉ ns) :
    InSchemaOrder ps ns := by
  cases h with
  | skip _ h => exact h
  | one _ h => exact absurd List.mem_cons_self hp
  | more _ h => exact absurd List.mem_cons_self hp

/-- Elements in the order of a schema have none, one or several of its first kind. -/
theorem cons_iff {p : Particle} :
    InSchemaOrder (p :: ps) ns ↔ InSchemaOrder ps ns ∨
      ∃ ms, ns = p.name :: ms ∧
        (InSchemaOrder ps ms ∨ p.repeats = true ∧ InSchemaOrder (p :: ps) ms) := by
  constructor
  · intro h
    cases h with
    | skip _ h => exact .inl h
    | one _ h => exact .inr ⟨_, rfl, .inl h⟩
    | more hp h => exact .inr ⟨_, rfl, .inr ⟨hp, h⟩⟩
  · rintro (h | ⟨ms, rfl, h | ⟨hp, h⟩⟩)
    · exact .skip p h
    · exact .one p h
    · exact .more hp h

/-- Whether a member of a schema and what comes after it take elements. -/
def takes (p : Particle) (rest : List String → Bool) : List String → Bool
  | [] => rest []
  | n :: ns => rest (n :: ns) || (n == p.name && (rest ns || (p.repeats && takes p rest ns)))

/-- Whether elements stand in the order of a schema. -/
def check : List Particle → List String → Bool
  | [], ns => ns.isEmpty
  | p :: ps, ns => takes p (check ps) ns

/-- The check decides the order. -/
theorem check_iff : check ps ns = true ↔ InSchemaOrder ps ns := by
  -- First along the schema, then along the names, as long as the first kind may be repeated.
  induction ps generalizing ns with
  | nil =>
    rw [check, List.isEmpty_iff]
    constructor
    · rintro rfl
      exact .nil
    · intro h
      cases h
      rfl
  | cons p ps ih =>
    rw [check]
    induction ns with
    | nil =>
      rw [takes, cons_iff, ih]
      simp
    | cons n ns ihn =>
      rw [takes, cons_iff]
      simp [ih, ihn, and_assoc]

instance : Decidable (InSchemaOrder ps ns) := decidable_of_iff _ check_iff

end InSchemaOrder

/-! ### Children in front of the first of some elements -/

namespace Xml.Node

/-- A node passes a test on elements if it is one that does. -/
theorem isElement_eq (p : Element → Bool) (n : Node) : n.isElement p = n.element?.any p := by
  cases n <;> rfl

/-- The elements before the first one that passes the test. -/
theorem filterMap_takeWhile (p : Element → Bool) (nodes : List Node) :
    (nodes.takeWhile (!·.isElement p)).filterMap element? =
      (nodes.filterMap element?).takeWhile (!p ·) := by
  simp only [isElement_eq]
  induction nodes with
  | nil => rfl
  | cons n r ih =>
    cases hn : n.element? with
    | none => simp [hn, ih]
    | some e => cases hp : p e <;> simp [hn, hp, ih]

/-- And those from it on. -/
theorem filterMap_dropWhile (p : Element → Bool) (nodes : List Node) :
    (nodes.dropWhile (!·.isElement p)).filterMap element? =
      (nodes.filterMap element?).dropWhile (!p ·) := by
  simp only [isElement_eq]
  induction nodes with
  | nil => rfl
  | cons n r ih =>
    cases hn : n.element? with
    | none => simp [hn, ih]
    | some e => cases hp : p e <;> simp [hn, hp, ih]

end Xml.Node

/-! ### Worksheets -/

namespace Worksheet

/-- What the schema has in front of the drawing of a worksheet. -/
def schemaBeforeDrawing : List Particle :=
  [⟨"sheetPr", false⟩, ⟨"dimension", false⟩, ⟨"sheetViews", false⟩, ⟨"sheetFormatPr", false⟩,
    ⟨"cols", true⟩, ⟨"sheetData", false⟩, ⟨"sheetCalcPr", false⟩, ⟨"sheetProtection", false⟩,
    ⟨"protectedRanges", false⟩, ⟨"scenarios", false⟩, ⟨"autoFilter", false⟩, ⟨"sortState", false⟩,
    ⟨"dataConsolidate", false⟩, ⟨"customSheetViews", false⟩, ⟨"mergeCells", false⟩,
    ⟨"phoneticPr", false⟩, ⟨"conditionalFormatting", true⟩, ⟨"dataValidations", false⟩,
    ⟨"hyperlinks", false⟩, ⟨"printOptions", false⟩, ⟨"pageMargins", false⟩, ⟨"pageSetup", false⟩,
    ⟨"headerFooter", false⟩, ⟨"rowBreaks", false⟩, ⟨"colBreaks", false⟩,
    ⟨"customProperties", false⟩, ⟨"cellWatches", false⟩, ⟨"ignoredErrors", false⟩,
    ⟨"smartTags", false⟩]

/-- What the schema has behind the drawing of a worksheet. -/
def schemaAfterDrawing : List Particle :=
  [⟨"legacyDrawing", false⟩, ⟨"legacyDrawingHF", false⟩, ⟨"drawingHF", false⟩, ⟨"picture", false⟩,
    ⟨"oleObjects", false⟩, ⟨"controls", false⟩, ⟨"webPublishItems", false⟩, ⟨"tableParts", false⟩,
    ⟨"extLst", false⟩]

/-- The sequence of elements that the schema prescribes for a worksheet. -/
def schema : List Particle := schemaBeforeDrawing ++ ⟨"drawing", false⟩ :: schemaAfterDrawing

/-- The names of the child elements. -/
def childNames (w : Worksheet) : List String := w.doc.root.elements.map (·.name)

/-- The names that stand behind a drawing are those of the schema. -/
private theorem afterDrawing_eq : afterDrawing = schemaAfterDrawing.map Particle.name := rfl

/-- No name before it is among them. -/
private theorem not_afterDrawing_of_before {n : String}
    (h : n ∈ schemaBeforeDrawing.map Particle.name) : afterDrawing.contains n = false := by
  have hall : (schemaBeforeDrawing.map Particle.name).all (!afterDrawing.contains ·) = true := by
    decide
  simpa using List.all_eq_true.1 hall n h

/-- The first element that comes after a drawing begins what the schema has behind the drawing. -/
theorem inSchemaOrder_around_drawing {ns : List String} (h : InSchemaOrder schema ns)
    (hno : "drawing" ∉ ns) :
    InSchemaOrder schemaBeforeDrawing (ns.takeWhile (!afterDrawing.contains ·)) ∧
      InSchemaOrder schemaAfterDrawing (ns.dropWhile (!afterDrawing.contains ·)) := by
  obtain ⟨before, after, rfl, hbefore, hdrawing⟩ := h.split
  have hafter := hdrawing.tail fun hmem => hno (List.mem_append_right before hmem)
  have hfront : ∀ n ∈ before, (!afterDrawing.contains n) = true := fun n hn => by
    rw [not_afterDrawing_of_before (hbefore.mem_names hn)]
    rfl
  rw [List.takeWhile_append_of_pos hfront, List.dropWhile_append_of_pos hfront]
  -- Without elements behind there is nothing to look for; with some the first of them stops the
  -- search.
  cases after with
  | nil => simpa using ⟨hbefore, hafter⟩
  | cons n r =>
    have hback : afterDrawing.contains n = true := by
      rw [afterDrawing_eq]
      exact List.contains_iff_mem.2 (hafter.mem_names List.mem_cons_self)
    rw [List.takeWhile_cons, List.dropWhile_cons, hback]
    simpa using ⟨hbefore, hafter⟩

/-- The element that refers to a drawing. -/
def drawingElement (id : String) : Element := { name := "drawing", attributes := [("r:id", id)] }

/-- A new drawing stands between the children in front of the first element that comes after it
and all others. -/
theorem attachDrawing_eq (w : Worksheet) (id : String) :
    w.attachDrawing id = w.mapRoot fun root =>
      { root with
        children := w.doc.root.children.takeWhile (!·.isElement (afterDrawing.contains ·.name)) ++
          .element (drawingElement id) ::
            w.doc.root.children.dropWhile (!·.isElement (afterDrawing.contains ·.name)) } := by
  rw [List.takeWhile_eq_take_findIdx_not, List.dropWhile_eq_drop_findIdx_not]
  simp only [Bool.not_not]
  rw [List.findIdx_eq_getD_findIdx?]
  rfl

/-- The drawing stands between the two parts. -/
theorem elements_attachDrawing (w : Worksheet) (id : String) :
    (w.attachDrawing id).doc.root.elements =
      w.doc.root.elements.takeWhile (!afterDrawing.contains ·.name) ++ drawingElement id ::
        w.doc.root.elements.dropWhile (!afterDrawing.contains ·.name) := by
  rw [attachDrawing_eq, Element.elements, mapRoot, List.filterMap_append, List.filterMap_cons,
    Node.element?, Node.filterMap_takeWhile, Node.filterMap_dropWhile]
  rfl

/-- A drawing that is added to a sheet whose elements stand in the order of the schema, none of them
a drawing, stands at its place in this order. Nothing else is changed, and it is the drawing of the
sheet. -/
theorem attachDrawing_in_order {w : Worksheet} (horder : InSchemaOrder schema w.childNames)
    (hnone : w.doc.root.named "drawing" = []) (id : String) :
    InSchemaOrder schema (w.attachDrawing id).childNames ∧
      (∃ before after, w.doc.root.children = before ++ after ∧
        w.attachDrawing id = w.mapRoot fun root =>
          { root with children := before ++ .element (drawingElement id) :: after }) ∧
      (w.attachDrawing id).doc.root.named "drawing" = [drawingElement id] ∧
      (w.attachDrawing id).drawingId? = some id := by
  have hno : ∀ e ∈ w.doc.root.elements, ¬(e.name == "drawing") = true :=
    List.filter_eq_nil_iff.1 hnone
  obtain ⟨hbefore, hafter⟩ := inSchemaOrder_around_drawing horder fun hmem => by
    obtain ⟨e, he, heq⟩ := List.mem_map.1 hmem
    exact hno e he (by simp [heq])
  -- The names around the drawing are those of the two parts, each in the order of its half of the
  -- schema.
  have hnames : (w.attachDrawing id).childNames =
      w.childNames.takeWhile (!afterDrawing.contains ·) ++ "drawing" ::
        w.childNames.dropWhile (!afterDrawing.contains ·) := by
    rw [childNames, elements_attachDrawing, List.map_append, List.map_cons, childNames,
      List.takeWhile_map, List.dropWhile_map]
    rfl
  have hdrawing : (w.attachDrawing id).doc.root.named "drawing" = [drawingElement id] := by
    rw [Element.named, elements_attachDrawing, List.filter_append,
      List.filter_eq_nil_iff.2 fun e he => hno e ((List.takeWhile_sublist _).subset he),
      List.filter_cons_of_pos rfl,
      List.filter_eq_nil_iff.2 fun e he => hno e ((List.dropWhile_sublist _).subset he)]
    rfl
  refine ⟨?_, ⟨_, _, List.takeWhile_append_dropWhile.symm, attachDrawing_eq w id⟩, hdrawing, ?_⟩
  · rw [hnames]
    exact hbefore.append (.one ⟨"drawing", false⟩ hafter)
  · rw [drawingId?, Element.child?_eq_head?, hdrawing]
    rfl

/-- A sheet with two lists of columns, a remark, blanks, and a list of tables. -/
def tableSheet : Worksheet where
  name := "Plan"
  path := "xl/sheets/plan.xml"
  doc := {
    root := {
      name := "worksheet"
      children := [.element { name := "cols" }, .element { name := "cols" }, .text " ",
        .element { name := "sheetData" }, .comment "legacyDrawing",
        .element { name := "pageMargins" }, .text " ", .element { name := "tableParts" },
        .element { name := "extLst" }, .text " "] } }
  rels := none

/-- A sheet with columns, data, margins and tables gets its drawing before the tables. -/
theorem attachDrawing_in_order_sample :
    InSchemaOrder schema tableSheet.childNames ∧ tableSheet.doc.root.named "drawing" = [] ∧
      InSchemaOrder schema (tableSheet.attachDrawing "rId4").childNames ∧
      (tableSheet.attachDrawing "rId4").childNames =
        ["cols", "cols", "sheetData", "pageMargins", "drawing", "tableParts", "extLst"] ∧
      (tableSheet.attachDrawing "rId4").drawingId? = some "rId4" := by
  have horder : InSchemaOrder schema tableSheet.childNames := by decide
  obtain ⟨hkept, -, -, hid⟩ := attachDrawing_in_order horder (by decide) "rId4"
  exact ⟨horder, by decide, hkept, by decide, hid⟩

end Worksheet

end SheetTemplate
