import SheetTemplate.Image.Basic

/-!
# JPEG headers

A JPEG file is a sequence of markers with segments. A frame header gives the size, and the image can
be read if the segments up to the first scan are in order: frame header, scan header and tables are
looked at closely, all other segments are passed over.
-/

namespace SheetTemplate.Image.Jpeg

/-! ### Frames and scans -/

/-- What a frame header gives: the size, and the names of the components of a pixel. -/
structure Frame where
  size : PixelSize
  components : List UInt8

/-- Whether a component can be sampled at a rate. -/
def isRate (n : Nat) : Bool := n == 1 || n == 2 || n == 4 || n == 8

/-- Reads components: a name, two rates in one byte, and the number of a table. -/
def components? : List UInt8 → Option (List UInt8)
  | [] => some []
  | name :: rates :: table :: r =>
    if isRate (rates.toNat / 16) && isRate (rates.toNat % 16) && table < 4 then
      (components? r).map (name :: ·)
    else none
  | _ => none

/-- Reads the content of a frame header. -/
def frame? : List UInt8 → Option Frame
  | precision :: h1 :: h2 :: w1 :: w2 :: count :: r => do
    let size : PixelSize := ⟨bigEndian [w1, w2], bigEndian [h1, h2]⟩
    let components ← components? r
    if precision = 8 ∧ size.width ≠ 0 ∧ size.height ≠ 0 ∧ 1 ≤ count ∧ count ≤ 4 ∧
        components.length = count.toNat then some ⟨size, components⟩
    else none
  | _ => none

/-- The first bytes of pairs. -/
def firsts : List UInt8 → List UInt8
  | a :: _ :: r => a :: firsts r
  | _ => []

/-- Whether the content of a segment begins a scan of a frame: it names components of the frame,
none twice, and then says which coefficients of them follow and to what precision. -/
def isScan (frame : Frame) : List UInt8 → Bool
  | [] => false
  | count :: r =>
    let names := firsts (r.take (2 * count.toNat))
    match r.drop (2 * count.toNat) with
    | [first, last, precision] =>
      1 ≤ count && count ≤ 4 && decide names.Nodup && names.all frame.components.contains &&
        first ≤ 63 && last ≤ 63 && precision.toNat / 16 ≤ 13 && precision.toNat % 16 ≤ 13
    | _ => false

/-! ### Tables -/

/-- Whether bytes are quantisation tables: each has 64 numbers of one byte or of two. -/
def areQuantisers : List UInt8 → Bool
  | [] => true
  | info :: r =>
    let length := if info < 16 then 64 else 128
    info.toNat / 16 ≤ 1 && info.toNat % 16 < 4 && length ≤ r.length && areQuantisers (r.drop length)
termination_by bytes => bytes.length
decreasing_by simp only [List.length_drop, List.length_cons]; omega

/-- Whether there are enough codes of each length, given how many are wanted. The codes of a length
follow on those of the lengths before, and the last of a length stays free. -/
def areCodes (limit next : Nat) : List UInt8 → Bool
  | [] => true
  | count :: r => next + count.toNat < limit && areCodes (2 * limit) (2 * (next + count.toNat)) r

/-- Whether bytes are tables of prefix codes: each counts the codes of every length up to sixteen,
and then gives the symbols. Tables of class 0 have small symbols. -/
def areCodeTables : List UInt8 → Bool
  | [] => true
  | info :: r =>
    let counts := r.take 16
    let total := counts.foldl (fun n b => n + b.toNat) 0
    let symbols := (r.drop 16).take total
    info.toNat / 16 ≤ 1 && info.toNat % 16 < 4 && counts.length == 16 && total ≤ 256 &&
      symbols.length == total && areCodes 2 0 counts && (16 ≤ info || symbols.all (· ≤ 15)) &&
      areCodeTables ((r.drop 16).drop total)
termination_by bytes => bytes.length
decreasing_by simp only [List.length_drop, List.length_cons]; omega

/-- Whether a segment about colours is in order; it counts if it bears the right name. -/
def isColourInfo (content : List UInt8) : Bool :=
  12 ≤ content.length &&
    (content.take 5 != "Adobe".toUTF8.toList || (content.drop 11).head?.all (· ≤ 2))

/-! ### Segments -/

/-- The content of a segment, and the rest. -/
def segment? (bytes : List UInt8) : Option (List UInt8 × List UInt8) := do
  let (length, r) ← take? 2 bytes
  if bigEndian length < 2 then none
  take? (bigEndian length - 2) r

/-- Whether the content of a segment other than a frame or a scan suits its marker. -/
def isSegment (marker : UInt8) (content : List UInt8) : Bool :=
  match marker with
  | 0xDB => areQuantisers content
  | 0xC4 => areCodeTables content
  | 0xDD => content.length == 2
  | 0xEE => isColourInfo content
  | _ => true

/-- Reads markers up to the first scan; `frame` is what a frame header has given. There are fewer
markers than bytes. -/
def sizeFrom? (frame : Option Frame) : Nat → List UInt8 → Option PixelSize
  | 0, _ => none
  | steps + 1, 0xFF :: marker :: r =>
    -- Any number of fill bytes may stand before a marker, and a zero is none.
    if marker = 0xFF ∨ marker = 0x00 then sizeFrom? frame steps (marker :: r)
    -- The image ends before its first scan, or takes arithmetic codes or a late line count.
    else if marker = 0xD9 ∨ marker = 0xCC ∨ marker = 0xDC then none
    else do
      let (content, rest) ← segment? r
      if marker = 0xDA then
        let frame ← frame
        if isScan frame content then some frame.size else none
      -- Baseline, extended and progressive frames can be read; all others are passed over.
      else if marker = 0xC0 ∨ marker = 0xC1 ∨ marker = 0xC2 then
        if frame.isSome then none
        sizeFrom? (← frame? content) steps rest
      else if isSegment marker content then
        -- The name in a first application segment takes five bytes, even where four are announced.
        sizeFrom? frame steps (if marker = 0xE0 ∧ content.length = 4 then rest.drop 1 else rest)
      else none
  | steps + 1, _ :: r => sizeFrom? frame steps r
  | _ + 1, [] => none

/-- The size that a file gives. -/
def size? (bytes : List UInt8) : Option PixelSize := sizeFrom? none bytes.length (bytes.drop 2)

end SheetTemplate.Image.Jpeg
