/-!
# Errors

Everything that can go wrong while a template is read, filled or written, by cause. `Error.message`
is the only place where an error is put into words.
-/

namespace SheetTemplate

/-- Why a text is no cell reference. The text is given without surrounding blanks. -/
inductive AddressFault where
  | emptyLetters
  | badLetter (letter : Char)
  | columnTooLarge (letters : String)
  | emptyReference
  | noColumn (text : String)
  | noRow (text : String)
  | badRow (text : String)
  | rowOutOfRange (text : String)
  | columnOutOfRange (text : String)
deriving DecidableEq, Repr, Inhabited

/-- Why a text with a colon is no range: one of its ends is no cell reference. -/
inductive RangeFault where
  | badStart (text : String)
  | badStop (text : String)
deriving DecidableEq, Repr, Inhabited

/-- Why bytes are no workbook. -/
inductive FormatFault where
  | noContentTypes
  | unclosedElement
  | emptyPart
deriving DecidableEq, Repr, Inhabited

/-- The causes of failure. -/
inductive Error where
  /-- A text is no cell reference. -/
  | invalidAddress (fault : AddressFault)
  /-- A text is no range. -/
  | invalidRange (fault : RangeFault)
  /-- A package or part does not have the form of one. -/
  | invalidFormat (fault : FormatFault)
  /-- A part that has to exist is not in the package. -/
  | missingPart (name : String)
  /-- No sheet has the name, id or position asked for. -/
  | sheetNotFound (selector : String)
  /-- An existing relationship id has no number, so a fresh one could clash with it. -/
  | cannotDetermineId (part : String)
  /-- Images are asked for on a sheet whose relationships cannot be read. -/
  | missingRelationships (sheet : String)
  /-- A part is not well-formed markup. -/
  | markup
  /-- Bytes are no archive. -/
  | archive
  /-- A file cannot be read or written. -/
  | file
  /-- Bytes are no image of a known format. -/
  | image
  /-- A text is not Base64. -/
  | base64
deriving DecidableEq, Repr, Inhabited

/-- The text shown for a fault in a cell reference. -/
def AddressFault.message : AddressFault → String
  | .emptyLetters => "empty column letters"
  | .badLetter c => "invalid column letter '" ++ c.toString ++ "'"
  | .columnTooLarge letters => s!"column '{letters}' too large"
  | .emptyReference => "empty reference"
  | .noColumn text => s!"no column letters in '{text}'"
  | .noRow text => s!"no row number in '{text}'"
  | .badRow text => s!"invalid row number in '{text}'"
  | .rowOutOfRange text => s!"row number out of range in '{text}'"
  | .columnOutOfRange text => s!"column out of range in '{text}'"

/-- The text shown for a fault in a range. -/
def RangeFault.message : RangeFault → String
  | .badStart text => s!"bad start in '{text}'"
  | .badStop text => s!"bad end in '{text}'"

/-- The text shown for a fault in a workbook. -/
def FormatFault.message : FormatFault → String
  | .noContentTypes => "Missing [Content_Types].xml"
  | .unclosedElement => "unclosed element"
  | .emptyPart => "empty XML part"

/-- The text shown for an error. -/
def Error.message : Error → String
  | .invalidAddress fault => "Invalid cell reference: " ++ fault.message
  | .invalidRange fault => "Invalid cell range: " ++ fault.message
  | .invalidFormat fault => "Invalid XLSX format: " ++ fault.message
  | .missingPart name => "Missing required part: " ++ name
  | .sheetNotFound selector => "Sheet not found: " ++ selector
  | .cannotDetermineId part => "Cannot determine next id for " ++ part
  | .missingRelationships sheet =>
    s!"Sheet '{sheet}' has no usable relationships part for embedded images"
  | .markup => "XML error"
  | .archive => "ZIP error"
  | .file => "IO error"
  | .image => "Image error"
  | .base64 => "Base64 error"

end SheetTemplate
