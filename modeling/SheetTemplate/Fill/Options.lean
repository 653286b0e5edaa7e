import SheetTemplate.Image.Extent
import SheetTemplate.Text.Printable

/-!
# Options of a pass

What a pass does with pictures, with the other cells of expanded rows, with page breaks and with
errors. `FillOptions.listing` shows all options in one line.
-/

namespace SheetTemplate

/-- The options of a pass. -/
structure FillOptions where
  /-- Move pictures down that begin below an expanded row. -/
  moveImages : Bool := false
  /-- Move pictures down that begin on an expanded row as well. -/
  moveSameLineImages : Bool := false
  /-- The scale of pictures in percent; no positive number means their natural size. -/
  imageRatio : Int := 100
  /-- Copy the other cells of an expanded row to the generated rows. -/
  substituteAllTableRows : Bool := false
  /-- Move the ends of ranges and manual page breaks below expanded rows. -/
  pushDownPageBreaks : Bool := false
  /-- The directory of relative image paths. -/
  imageRoot : Option String := none
  /-- Leave pictures out that cannot be read, and report them. -/
  skipBrokenImages : Bool := false
  /-- Refuse pictures on a sheet whose relationships cannot be read. -/
  strictRelationships : Bool := false
deriving DecidableEq, Repr, Inhabited

namespace FillOptions

/-- The scale of pictures in percent. -/
def ratio (o : FillOptions) : Int := Image.effectiveRatio o.imageRatio

/-- The written form of a character between quotes: itself if it is printable, else its code point
in hexadecimal digits. A few characters have a short form. -/
def quotedChar (c : Char) : List Char :=
  if c = '"' then ['\\', '"']
  else if c = '\\' then ['\\', '\\']
  else if c = '\n' then ['\\', 'n']
  else if c = '\r' then ['\\', 'r']
  else if c = '\t' then ['\\', 't']
  else if c.toNat = 0 then ['\\', '0']
  else if Text.isPrintable c then [c]
  else "\\u\x7b".toList ++ Nat.toDigits 16 c.toNat ++ ['}']

/-- A text between quotes. -/
def quoted (s : String) : String := "\"" ++ String.ofList (s.toList.flatMap quotedChar) ++ "\""

/-- A perhaps missing text between quotes. -/
def optional : Option String → String
  | some s => "Some(" ++ quoted s ++ ")"
  | none => "None"

/-- All options in one line. -/
def listing (o : FillOptions) : String :=
  let entries := [
    ("move_images", toString o.moveImages),
    ("move_same_line_images", toString o.moveSameLineImages),
    ("image_ratio", toString o.imageRatio),
    ("substitute_all_table_rows", toString o.substituteAllTableRows),
    ("push_down_page_breaks", toString o.pushDownPageBreaks),
    ("image_root_path", optional o.imageRoot),
    ("image_error_handler", optional (if o.skipBrokenImages then some "<fn>" else none)),
    ("strict_relationships", toString o.strictRelationships)]
  let shown := entries.map fun (key, value) => key ++ ": " ++ value
  "TemplateOptions \x7b " ++ ", ".intercalate shown ++ " \x7d"

end FillOptions

end SheetTemplate
