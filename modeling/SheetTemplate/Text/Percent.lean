import SheetTemplate.Text.Hexadecimal
import SheetTemplate.Text.Utf8

/-!
# Percent encoding

A link target is substituted in its decoded form and written back encoded. `decode` turns `%XX`
into the byte it names and keeps a percent sign that names none; `encode` writes every byte as
`%XX` that is not in the kept set.
-/

namespace SheetTemplate.Text.Percent

/-- Besides letters and digits, the characters of a link that stay as they are: the reserved
characters of a URI, the number sign and the unreserved marks. -/
def keptMarks : List Char :=
  [';', ',', '/', '?', ':', '@', '&', '=', '+', '$', '-', '_', '.', '!', '~', '*', '\x27', '(', ')',
    '#']

/-- Whether a character of a link stays as it is. -/
def isKept (c : Char) : Bool := c.isAlphanum || keptMarks.contains c

/-- The bytes that an encoded text stands for. -/
def decode : List Char → List UInt8
  | [] => []
  | '%' :: a :: b :: r =>
    match hexByte? a b with
    | some byte => byte :: decode r
    | none => '%'.toNat.toUInt8 :: decode (a :: b :: r)
  | c :: r => String.utf8EncodeChar c ++ decode r

/-- The escape of a byte. -/
def escape (b : UInt8) : List Char := '%' :: hexPair b

/-- Writes a text with the kept characters as they are and all else as escaped bytes. -/
def encode (cs : List Char) : List Char :=
  cs.flatMap fun c => if isKept c then [c] else (String.utf8EncodeChar c).flatMap escape

/-- The text that an encoded text stands for, with U+FFFD for bytes that are not UTF-8. -/
def decodeText (cs : List Char) : List Char := Utf8.lossy (Utf8.glyphs (decode cs))

end SheetTemplate.Text.Percent
