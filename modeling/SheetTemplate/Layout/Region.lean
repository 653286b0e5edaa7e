import SheetTemplate.Reference.Range
import SheetTemplate.Xml.Tree

/-!
# Regions that elements refer to

Merged regions and defined names refer to cells by address. When cells move, a rule says where a
range goes, if it goes anywhere, and the element changes only then: a range that stays keeps
its text, and a name for a single cell stays one.
-/

namespace SheetTemplate.Layout

open Xml (Element)

/-- The range in the `ref` attribute of an element, if it can be read. -/
def refRange? (e : Element) : Option RangeRef := (e.attr? "ref").bind RangeRef.parse?

/-- Changes the `ref` attribute of an element by a rule. -/
def moveRef (rule : RangeRef → Option RangeRef) (e : Element) : Element :=
  match (refRange? e).bind rule with
  | some range => e.setAttr "ref" range.a1
  | none => e

/-- The range that a defined name refers to, if it refers to one. -/
def nameRange? (name : Element) : Option RangeRef := RangeRef.parse? name.text

/-- Changes the text of a defined name by a rule. -/
def moveName (rule : RangeRef → Option RangeRef) (name : Element) : Element :=
  match (nameRange? name).bind rule with
  | some range =>
    name.setText (if RangeRef.isWritten name.text then range.a1 else range.start.a1)
  | none => name

/-- The merged regions of a sheet that can be read. -/
def mergedRegions (sheet : Element) : List RangeRef :=
  match sheet.child? "mergeCells" with
  | some merges => (merges.named "mergeCell").filterMap refRange?
  | none => []

/-- The first merged region that contains a cell. -/
def mergeContaining? (sheet : Element) (cell : CellRef) : Option RangeRef :=
  (mergedRegions sheet).find? (·.contains cell)

end SheetTemplate.Layout
