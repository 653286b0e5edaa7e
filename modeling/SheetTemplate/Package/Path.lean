import SheetTemplate.Text.Cut

/-!
# Part names

Parts are named by paths with slashes. A relationship names its target either from the root of the
package, after a slash, or relative to the directory of the part it belongs to; `resolve` finds the
part meant.
-/

namespace SheetTemplate.PartPath

open Text (cutLast? pieces join)

/-- The directory of a part, empty at the root. -/
def directory (part : String) : String :=
  match cutLast? '/' part.toList with
  | some (dir, _) => String.ofList dir
  | none => ""

/-- The name of a part in its directory. -/
def fileName (part : String) : String :=
  match cutLast? '/' part.toList with
  | some (_, file) => String.ofList file
  | none => part

/-- The part that holds the relationships of a part. -/
def relationshipsOf (part : String) : String :=
  if directory part = "" then "_rels/" ++ fileName part ++ ".rels"
  else directory part ++ "/_rels/" ++ fileName part ++ ".rels"

/-- Follows one segment of a path from a directory, given as a stack with the innermost name on
top. Above the root there is nothing. -/
def enter (stack : List (List Char)) (segment : List Char) : List (List Char) :=
  if segment = [] ∨ segment = ['.'] then stack
  else if segment = ['.', '.'] then stack.tail
  else segment :: stack

/-- The part that a target means for the part it belongs to. -/
def resolve (base target : String) : String :=
  match target.toList with
  | '/' :: r => String.ofList r
  | t =>
    let start := ((pieces '/' (directory base).toList).filter (!·.isEmpty)).reverse
    String.ofList (join '/' ((pieces '/' t).foldl enter start).reverse)

end SheetTemplate.PartPath
