import SheetTemplate.Image.Basic

/-!
# BMP headers

A BMP file has a file header of fourteen bytes and then an image header, whose length tells its
form. The image can be read if its bits and its compression go together and what is needed to find
the colours is there: masks, or a palette.
-/

namespace SheetTemplate.Image.Bmp

/-- What an image header gives. -/
structure Header where
  size : PixelSize
  bits : Nat
  /-- The number of colours in the palette, if there is one. -/
  colours : Nat

/-- Where the image header begins. -/
def headerStart : Nat := 14

/-- The number that some bytes from a place on give. -/
def number (bytes : List UInt8) (start length : Nat) : Nat :=
  littleEndian ((bytes.drop start).take length)

/-- The integer that four bytes give in two's complement. -/
def signed (n : Nat) : Int := if n < Nat.pow 2 31 then n else (n : Int) - Nat.pow 2 32

/-- The largest width and height. -/
def maxSize : Nat := 0xFFFF

/-! ### Masks -/

/-- Whether the bits that a mask takes lie side by side, and within a number of bits. -/
def isRun (bits mask : Nat) : Bool :=
  let ones := (List.range 32).filter mask.testBit
  let first := ones.headD 0
  ones == List.range' first ones.length && first + ones.length ≤ bits

/-- Whether masks tell the colours of pixels with a number of bits: red, green and blue have bits,
and transparency may have. -/
def areMasks (bits : Nat) (masks : List Nat) : Bool :=
  masks.all (isRun bits) && (masks.take 3).all (· != 0)

/-! ### Headers -/

/-- Whether a compression allows a number of bits, and rows from the top down. -/
def isCombination (compression bits : Nat) (topDown : Bool) : Bool :=
  match compression with
  | 0 => [1, 2, 4, 8, 16, 24, 32].contains bits
  | 1 => bits == 8 && !topDown
  | 2 => bits == 4 && !topDown
  | 3 => bits == 16 || bits == 32
  | _ => false

/-- Reads a header of sixteen-bit numbers, given after its length. -/
def coreHeader? (r : List UInt8) : Option Header := do
  let (fields, _) ← take? 8 r
  let size : PixelSize := ⟨number fields 0 2, number fields 2 2⟩
  let bits := number fields 6 2
  if size.width ≠ 0 ∧ size.height ≠ 0 ∧ number fields 4 2 = 1 ∧ [1, 4, 8, 24].contains bits then
    some ⟨size, bits, Nat.pow 2 bits⟩
  else none

/-- Reads a header of 32-bit numbers, given after its length. Rows from the top down have a negative
height, which may be any. -/
def infoHeader? (length : Nat) (r : List UInt8) : Option Header := do
  let (fields, r) ← take? 36 r
  let width := signed (number fields 0 4)
  let height := signed (number fields 4 4)
  let bits := number fields 10 2
  let compression := number fields 12 4
  let colours := number fields 28 4
  if width ≤ 0 ∨ maxSize < width ∨ height = 0 ∨ maxSize < height ∨
      height = -Nat.pow 2 31 then none
  if number fields 8 2 ≠ 1 ∨ !isCombination compression bits (height < 0) then none
  if compression = 3 then
    -- Longer headers have a mask for transparency too.
    let (masks, _) ← take? (if 56 ≤ length then 16 else 12) r
    let masks := (List.range (masks.length / 4)).map fun i => number masks (4 * i) 4
    if !areMasks bits masks then none
  return ⟨⟨width.toNat, height.natAbs⟩, bits, if colours = 0 then Nat.pow 2 bits else colours⟩

/-- Whether the palette that the bits need is there, its colours of `width` bytes each. -/
def Header.hasPalette (h : Header) (width : Nat) (bytes : List UInt8) : Bool :=
  8 < h.bits || (h.colours ≤ Nat.pow 2 h.bits && h.colours * width ≤ bytes.length)

/-- The size that a file gives. -/
def size? (bytes : List UInt8) : Option PixelSize := do
  let (start, r) ← take? 4 (bytes.drop headerStart)
  let length := littleEndian start
  let palette := bytes.drop (headerStart + length)
  if length = 12 then
    let h ← coreHeader? r
    if h.hasPalette 3 palette then some h.size else none
  else if [40, 52, 56, 108, 124].contains length then
    let h ← infoHeader? length r
    if h.hasPalette 4 palette then some h.size else none
  else none

end SheetTemplate.Image.Bmp
