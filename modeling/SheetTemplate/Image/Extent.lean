import SheetTemplate.Reference.Range

/-!
# Extents

The size of a picture on a sheet, in English metric units (914400 to the inch, 96 pixels to the
inch). A picture takes its natural size times a ratio, or is scaled to fit a merged region.
-/

namespace SheetTemplate.Image

/-- Width and height on a sheet. -/
structure Extent where
  width : Int
  height : Int
deriving DecidableEq, Repr, Inhabited

/-- Units to the inch. -/
def unitsPerInch : Float := 914400.0

/-- Pixels to a character of column width. -/
def pixelsPerCharacter : Float := 7.625579987895905

/-- The integer part of a double, kept within 64 bits. -/
def truncated (x : Float) : Int := x.toInt64.toInt

/-- The integer as a double. -/
def ofUnits (n : Int) : Float := Float.ofInt n

/-- Pixels in units, a half rounded away from zero. -/
def ofPixels (pixels : Float) : Int := truncated (pixels * unitsPerInch / 96.0).round

/-- A column width in units. -/
def ofColumnWidth (width : Float) : Int := ofPixels (width * pixelsPerCharacter)

/-- A row height in units. -/
def ofRowHeight (points : Float) : Int := truncated (points / 72.0 * unitsPerInch).round

/-- The ratio that counts: a positive number of percent. -/
def effectiveRatio (percent : Int) : Int := if percent ≤ 0 then 100 else percent

/-- The extent of a picture of a pixel size, at a number of percent. -/
def extentOf (width height : Nat) (percent : Int) : Extent :=
  let ratio := Float.ofInt (effectiveRatio percent) / 100.0
  let scaled (pixels : Nat) := truncated (ofUnits (ofPixels (Float.ofNat pixels)) * ratio).floor
  ⟨scaled width, scaled height⟩

/-- The sum of two integers as 64 bits hold it. -/
def add64 (a b : Int) : Int := (a + b).bmod (Nat.pow 2 64)

/-- The sum of a measure over the numbers from `first` to `last`. -/
def total (first last : Nat) (measure : Nat → Int) : Int :=
  (List.range' first (last + 1 - first)).foldl (fun sum n => add64 sum (measure n)) 0

/-- Scales an extent to fit a region, keeping its proportions. -/
def fit (extent : Extent) (region : RangeRef) (colWidth rowHeight : Nat → Float) : Extent :=
  let width := total region.start.col region.stop.col fun c => ofColumnWidth (colWidth c)
  let height := total region.start.row region.stop.row fun r => ofRowHeight (rowHeight r)
  if width ≤ 0 ∨ height ≤ 0 then extent
  else
    let byWidth := ofUnits extent.width / ofUnits width
    let byHeight := ofUnits extent.height / ofUnits height
    -- The larger rate makes both sides fit.
    let rate := if byWidth < byHeight then byHeight else byWidth
    let scaled (n : Int) := truncated (ofUnits n / rate).floor
    if rate ≤ 0.0 then extent else ⟨scaled extent.width, scaled extent.height⟩

end SheetTemplate.Image
