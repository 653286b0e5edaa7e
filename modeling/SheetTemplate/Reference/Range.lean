import SheetTemplate.Reference.Cell

/-!
# Ranges

A range such as `A1:C3`, given by two cells. The corners may stand in any order; whoever reads a
range expects the upper left one first. A single reference is read as a range of one cell.
-/

namespace SheetTemplate

open Text (trim cutFirst?)

/-- A range of cells. -/
structure RangeRef where
  start : CellRef
  stop : CellRef
deriving DecidableEq, Repr, Inhabited

namespace RangeRef

/-- Reads one corner, putting an error of it down to the whole range. -/
def corner (fault : RangeFault) (cs : List Char) : Except Error CellRef :=
  match CellRef.ofChars cs with
  | .ok c => .ok c
  | .error _ => .error (.invalidRange fault)

/-- Reads a range; the corners are separated by the first colon. -/
def parse (s : String) : Except Error RangeRef :=
  let text := trim s.toList
  match cutFirst? ':' text with
  | some (a, b) => do
    let start ← corner (.badStart (String.ofList text)) a
    let stop ← corner (.badStop (String.ofList text)) b
    return { start, stop }
  | none =>
    match CellRef.ofChars text with
    | .ok c => .ok ⟨c, c⟩
    | .error fault => .error (.invalidAddress fault)

/-- The range a text denotes, if it denotes one. -/
def parse? (s : String) : Option RangeRef := (parse s).toOption

/-- Whether a reference is written as a range and not as a single cell. -/
def isWritten (s : String) : Bool := s.toList.contains ':'

/-- Whether a cell lies in the range. -/
def contains (r : RangeRef) (c : CellRef) : Bool := c.within r.start r.stop

/-- The range with both corners moved. -/
def offset (r : RangeRef) (cols rows : Int) : RangeRef :=
  ⟨r.start.offset cols rows, r.stop.offset cols rows⟩

/-- The text of a range. -/
def a1 (r : RangeRef) : String := String.ofList (r.start.chars ++ ':' :: r.stop.chars)

end RangeRef

end SheetTemplate
