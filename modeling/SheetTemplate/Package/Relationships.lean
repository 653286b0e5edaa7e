import SheetTemplate.Package.Basic
import SheetTemplate.Package.Path

/-!
# Relationships

A relationships part lists, for one part, targets with a type and an id. Ids are numbered; a new
one gets the number after the largest, and none is made up where an existing id has no number.
-/

namespace SheetTemplate

open Text (natural? max32 add32 isDecimalDigit)
open Xml (Element Document)

/-- The relationships of a part. -/
structure Relationships where
  /-- The name of the part that holds them. -/
  path : String
  doc : Document
deriving DecidableEq, Inhabited

/-- Whether a relationship type ends with a name after a slash. -/
def isType (suffix : String) (type : String) : Bool := ('/' :: suffix.toList).isSuffixOf type.toList

namespace Relationships

/-- The namespace of relationships parts. -/
def xmlns : String := "http://schemas.openxmlformats.org/package/2006/relationships"

/-- What the types of office documents begin with. -/
def officeTypes : String := "http://schemas.openxmlformats.org/officeDocument/2006/relationships"

/-- The type of a drawing. -/
def drawingType : String := officeTypes ++ "/drawing"

/-- The type of an image. -/
def imageType : String := officeTypes ++ "/image"

/-- The type of the shared strings. -/
def sharedStringsType : String := officeTypes ++ "/sharedStrings"

/-- A relationships part without any. -/
def empty (path : String) : Relationships :=
  { path, doc := { root := { name := "Relationships", attributes := [("xmlns", xmlns)] } } }

/-- Reads a relationships part, if it exists. -/
def load? (package : Package) (path : String) : Except Error (Option Relationships) :=
  (package.xml? path).map fun doc => doc.map fun doc => { path, doc }

/-- Writes the part. -/
def save (r : Relationships) (package : Package) : Package := package.setXml r.path r.doc

/-- The relationships in order. -/
def toList (r : Relationships) : List Element := r.doc.root.named "Relationship"

/-- The relationship with an id. -/
def get? (r : Relationships) (id : String) : Option Element :=
  r.toList.find? (·.attr? "Id" == some id)

/-- The target of the relationship with an id. -/
def target? (r : Relationships) (id : String) : Option String :=
  (r.get? id).bind (·.attr? "Target")

/-- Whether a relationship is of a type. -/
def hasType (suffix : String) (rel : Element) : Bool := (rel.attr? "Type").any (isType suffix)

/-- The first relationship of a type. -/
def ofType? (r : Relationships) (suffix : String) : Option Element :=
  r.toList.find? (hasType suffix)

/-- Whether an element is the relationship with an id. -/
def isWithId (id : String) (e : Element) : Bool :=
  e.name == "Relationship" && e.attr? "Id" == some id

/-- Changes the root. -/
def mapRoot (r : Relationships) (f : Element → Element) : Relationships :=
  { r with doc := { r.doc with root := f r.doc.root } }

/-- Gives the first relationship with an id another target. -/
def retarget (r : Relationships) (id target : String) : Relationships :=
  r.mapRoot fun root =>
    { root with
      children := Xml.Node.mapFirst (isWithId id) (·.setAttr "Target" target) root.children }

/-- The number of an id: the first digits that follow the letters `rId`. -/
def idNumber? : List Char → Option Nat
  | 'r' :: 'I' :: 'd' :: c :: r =>
    -- Digits of other scripts count as digits here, but then give no number.
    if isDecimalDigit c then natural? max32 (c :: r.takeWhile isDecimalDigit)
    else idNumber? ('I' :: 'd' :: c :: r)
  | _ :: r => idNumber? r
  | [] => none

/-- The numbers of all ids. -/
def idNumbers (r : Relationships) : Except Error (List Nat) :=
  r.toList.mapM fun rel =>
    match idNumber? ((rel.attr? "Id").getD "").toList with
    | some n => .ok n
    | none => .error (.cannotDetermineId r.path)

/-- The id for a new relationship. -/
def nextId (r : Relationships) : Except Error String :=
  r.idNumbers.map fun ns => "rId" ++ toString (add32 (ns.foldl max 0) 1)

/-- Adds a relationship at the end, and gives its id. -/
def add (r : Relationships) (type target : String) : Except Error (Relationships × String) :=
  r.nextId.map fun id =>
    (r.mapRoot (·.push
      { name := "Relationship", attributes := [("Id", id), ("Type", type), ("Target", target)] }),
      id)

/-- Removes all relationships of a type. -/
def removeType (r : Relationships) (suffix : String) : Relationships :=
  r.mapRoot (·.removeWhere fun e => e.name == "Relationship" && hasType suffix e)

end Relationships

end SheetTemplate
