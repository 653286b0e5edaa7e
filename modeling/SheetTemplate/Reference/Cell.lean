import SheetTemplate.Reference.Column
import SheetTemplate.Text.Blank
import SheetTemplate.Text.Cut

/-!
# Cell references

A reference such as `C5`, `$B$2` or `Sheet1!C5`: column and row, counted from one, a marker on each
that fixes it, and a sheet qualifier kept as it was written, quotes included. `parse` reads the form
that `a1` writes.
-/

namespace SheetTemplate

open Text (trim cutLast? natural? max32 add32 numeral replaceAll)

/-- The last column of a sheet. -/
def maxCols : Nat := 16384

/-- The last row of a sheet. -/
def maxRows : Nat := 1048576

/-- Columns and rows of a sheet are numbers of 32 bits. -/
theorem limits_le_max32 : maxCols ≤ max32 ∧ maxRows ≤ max32 := by decide

/-- A reference to one cell. -/
structure CellRef where
  /-- The qualifier as written, without the exclamation mark. -/
  sheet : Option String := none
  col : Nat
  row : Nat
  colFixed : Bool := false
  rowFixed : Bool := false
deriving DecidableEq, Repr, Inhabited

namespace CellRef

/-- Splits a dollar sign off; whether there was one, and the rest. -/
def marker : List Char → Bool × List Char
  | '$' :: r => (true, r)
  | cs => (false, cs)

/-- Splits the sheet qualifier off, which ends at the last exclamation mark. -/
def qualifier (text : List Char) : Option String × List Char :=
  match cutLast? '!' text with
  | some (q, r) => (some (String.ofList q), r)
  | none => (none, text)

/-- Reads the part after the qualifier; `text` is the whole reference, for the error. -/
def parseLocal (text : String) (sheet : Option String) (cell : List Char) :
    Except AddressFault CellRef := do
  let (colFixed, afterMarker) := marker cell
  let letters := afterMarker.takeWhile Char.isAlpha
  if letters.isEmpty then throw (.noColumn text)
  let col ← Column.number letters
  let (rowFixed, digits) := marker (afterMarker.dropWhile Char.isAlpha)
  if digits.isEmpty then throw (.noRow text)
  let some row := natural? max32 digits | throw (.badRow text)
  if row = 0 ∨ maxRows < row then throw (.rowOutOfRange text)
  if maxCols < col then throw (.columnOutOfRange text)
  return { sheet, col, row, colFixed, rowFixed }

/-- Reads a reference from characters that may have blanks around them. -/
def ofChars (cs : List Char) : Except AddressFault CellRef :=
  let text := trim cs
  if text.isEmpty then .error .emptyReference
  else
    let (sheet, cell) := qualifier text
    parseLocal (String.ofList text) sheet cell

/-- Reads a reference. -/
def parse (s : String) : Except AddressFault CellRef := ofChars s.toList

/-- The reference a text denotes, if it denotes one. -/
def parse? (s : String) : Option CellRef := (parse s).toOption

/-- The characters of a reference. -/
def chars (c : CellRef) : List Char :=
  (match c.sheet with
    | some q => q.toList ++ ['!']
    | none => []) ++
  (if c.colFixed then ['$'] else []) ++ Column.letters c.col ++
  (if c.rowFixed then ['$'] else []) ++ numeral c.row

/-- The text of a reference, as a formula writes it. -/
def a1 (c : CellRef) : String := String.ofList c.chars

/-- The sheet a qualifier names: without the quotes around it and with inner quotes undoubled. -/
def sheetName? (c : CellRef) : Option String :=
  c.sheet.map fun q =>
    let bare := ((q.toList.dropWhile (· == '\x27')).reverse.dropWhile (· == '\x27')).reverse
    String.ofList (replaceAll ['\x27', '\x27'] ['\x27'] bare)

/-- The cell one column to the right. -/
def nextCol (c : CellRef) : CellRef := { c with col := add32 c.col 1 }

/-- The cell one row below. -/
def nextRow (c : CellRef) : CellRef := { c with row := add32 c.row 1 }

/-- The same column on another row. -/
def withRow (c : CellRef) (row : Nat) : CellRef := { c with row }

/-- A coordinate moved by a signed distance: at least one, and the low 32 bits of the result. -/
def moved (n : Nat) (distance : Int) : Nat := (max 1 ((n : Int) + distance)).toNat % Nat.pow 2 32

/-- The cell some columns to the right and some rows below; the first column and the first row
are not left. -/
def offset (c : CellRef) (cols rows : Int) : CellRef :=
  { c with col := moved c.col cols, row := moved c.row rows }

/-- Column and row counted from zero, as image anchors count them. -/
def zeroBased (c : CellRef) : Nat × Nat := (c.col - 1, c.row - 1)

/-- Whether a cell lies in the rectangle with the given corners. -/
def within (c start stop : CellRef) : Bool :=
  start.row ≤ c.row && c.row ≤ stop.row && start.col ≤ c.col && c.col ≤ stop.col

/-- Without a qualifier and markers a cell is its letters and its number. -/
@[simp]
theorem chars_mk_unqualified (col row : Nat) :
    (CellRef.mk none col row false false).chars = Column.letters col ++ numeral row := by
  simp [chars]

end CellRef

end SheetTemplate
