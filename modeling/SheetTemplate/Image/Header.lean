import SheetTemplate.Image.Bmp
import SheetTemplate.Image.Gif
import SheetTemplate.Image.Jpeg
import SheetTemplate.Image.Png

/-!
# Image headers

The pixel size of an encoded image, read from its header; the pixels are not decoded. The format is
told from the first bytes.
-/

namespace SheetTemplate.Image

/-- The format that the first bytes of an image tell. -/
def format? (bytes : List UInt8) : Option Format :=
  if Png.signature.isPrefixOf bytes then some .png
  else if [0xFF, 0xD8, 0xFF].isPrefixOf bytes then some .jpeg
  else if "GIF89a".toUTF8.toList.isPrefixOf bytes || "GIF87a".toUTF8.toList.isPrefixOf bytes then
    some .gif
  else if "BM".toUTF8.toList.isPrefixOf bytes then some .bmp
  else none

/-- The size of an image of a format. -/
def Format.size? (format : Format) (bytes : List UInt8) : Option PixelSize :=
  match format with
  | .png => Png.size? bytes
  | .jpeg => Jpeg.size? bytes
  | .gif => Gif.size? bytes
  | .bmp => Bmp.size? bytes

end SheetTemplate.Image
