import SheetTemplate.Reference.Range
import SheetTemplate.Worksheet

/-!
# Tables

A table that a worksheet lists: a range of cells with named columns. The range of its filter follows
its own.
-/

namespace SheetTemplate

open Xml (Element Document)

/-- A table and the part it is in. -/
structure Table where
  path : String
  doc : Document
deriving DecidableEq, Inhabited

namespace Table

/-- Reads the tables that a sheet lists. Those without a target are left out. -/
def loadAll (package : Package) (sheet : Worksheet) : Except Error (List Table) :=
  match sheet.doc.root.child? "tableParts", sheet.rels with
  | some parts, some rels =>
    let targets := (parts.named "tablePart").filterMap fun part =>
      (part.attr? "r:id").bind rels.target?
    targets.mapM fun target =>
      let path := PartPath.resolve sheet.path target
      (package.requireXml path).map fun doc => { path, doc }
  | _, _ => .ok []

/-- Writes the part. -/
def save (t : Table) (package : Package) : Package := package.setXml t.path t.doc

/-- The name of the table. -/
def name? (t : Table) : Option String := t.doc.root.attr? "name"

/-- The range of the table, if it can be read. -/
def range? (t : Table) : Option RangeRef := (t.doc.root.attr? "ref").bind RangeRef.parse?

/-- Gives the table and its filter a range. -/
def setRange (t : Table) (range : RangeRef) : Table :=
  let filtered := t.doc.root.mapChild "autoFilter" (·.setAttr "ref" range.a1)
  { t with doc.root := filtered.setAttr "ref" range.a1 }

/-- The columns. -/
def columns (t : Table) : List Element :=
  match t.doc.root.child? "tableColumns" with
  | some cols => cols.named "tableColumn"
  | none => []

/-- Changes every column. -/
def mapColumns (t : Table) (f : Element → Element) : Table :=
  { t with doc.root := t.doc.root.mapChild "tableColumns" (·.mapNamed "tableColumn" f) }

end Table

end SheetTemplate
