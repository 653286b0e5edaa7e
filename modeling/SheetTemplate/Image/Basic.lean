/-!
# Images

The formats of encoded images that are known, the size of an image in pixels, and the numbers that
image files are made of.
-/

namespace SheetTemplate.Image

/-- A format whose header can be read. -/
inductive Format where
  | png | jpeg | gif | bmp
deriving DecidableEq, Repr, Inhabited

/-- The extension of a part with an image of a format. -/
def Format.extension : Format → String
  | .png => "png"
  | .jpeg => "jpg"
  | .gif => "gif"
  | .bmp => "bmp"

/-- The content type of a format. -/
def Format.contentType : Format → String
  | .png => "image/png"
  | .jpeg => "image/jpeg"
  | .gif => "image/gif"
  | .bmp => "image/bmp"

/-- Width and height in pixels. -/
structure PixelSize where
  width : Nat
  height : Nat
deriving DecidableEq, Repr, Inhabited

/-- A number of some bytes, the most significant first. -/
def bigEndian (bytes : List UInt8) : Nat := bytes.foldl (fun n b => n * 256 + b.toNat) 0

/-- A number of some bytes, the least significant first. -/
def littleEndian (bytes : List UInt8) : Nat := bigEndian bytes.reverse

/-- Some bytes from the front, and the rest; none if there are fewer. -/
def take? (n : Nat) (bytes : List UInt8) : Option (List UInt8 × List UInt8) :=
  let front := bytes.take n
  if front.length = n then some (front, bytes.drop n) else none

end SheetTemplate.Image
