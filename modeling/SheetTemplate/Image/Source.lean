import SheetTemplate.Error
import SheetTemplate.Image.Extent
import SheetTemplate.Image.Header
import SheetTemplate.Text.Base64
import SheetTemplate.Text.Blank
import SheetTemplate.Text.Cut
import SheetTemplate.Value

/-!
# Image sources

The bytes of a picture are given as such, as Base64 or as a file. A text names a file if there is
one of that name, and is Base64 otherwise. What the files hold is given by a function from paths to
bytes, so that filling a template stays a matter of its inputs alone.
-/

namespace SheetTemplate

open Text (after? cutFirst? trim)

/-- What the files hold that can be read. -/
abbrev ImageFiles := String → Option ByteArray

namespace Image

/-- An encoded picture whose size is known. -/
structure Picture where
  bytes : ByteArray
  format : Format
  size : PixelSize
deriving Inhabited

/-- The path of a file: below the root, unless it begins with a slash or there is no root. -/
def below (root : Option String) (path : String) : String :=
  match root, path.toList with
  | none, _ => path
  | some _, '/' :: _ => path
  | some root, _ =>
    match root.toList.getLast? with
    | none => path
    | some '/' => root ++ path
    | some _ => root ++ "/" ++ path

/-- The source of a picture that a value gives, if it gives one. -/
def sourceOf? (files : ImageFiles) (root : Option String) : Value → Option ImageSource
  | .image source => some source
  | .text s =>
    if s = "" then none
    else if (files (below root s)).isSome then some (.path s)
    else some (.base64 s)
  | _ => none

/-- The Base64 part of a text that may begin with a `data:` header. -/
def payload (text : List Char) : List Char :=
  if (after? "data:".toList text).isNone then text
  else (afterMark? text).getD text
where
  /-- What follows the first mark that ends a header. -/
  afterMark? : List Char → Option (List Char)
    | [] => none
    | c :: r =>
      match after? ";base64,".toList (c :: r) with
      | some rest => some rest
      | none => afterMark? r

/-- Tells the format and size of an encoded picture. -/
def probe (bytes : ByteArray) : Except Error Picture :=
  match format? bytes.toList with
  | none => .error .image
  | some format =>
    match format.size? bytes.toList with
    | some size => .ok { bytes, format, size }
    | none => .error .image

/-- The bytes that a source gives. -/
def bytesOf (files : ImageFiles) (root : Option String) : ImageSource → Except Error ByteArray
  | .bytes content => .ok content
  | .base64 text =>
    match Text.Base64.decode? (trim (payload text.toList)) with
    | some bytes => .ok bytes
    | none => .error .base64
  | .path file =>
    match files (below root file) with
    | some bytes => .ok bytes
    | none => .error .file

/-- Reads the picture that a source gives. -/
def load (files : ImageFiles) (root : Option String) (source : ImageSource) :
    Except Error Picture := do
  probe (← bytesOf files root source)

/-- The extent of a picture at a number of percent. -/
def Picture.extent (p : Picture) (percent : Int) : Extent :=
  extentOf p.size.width p.size.height percent

end Image

end SheetTemplate
