import SheetTemplate.Decimal.Double

/-!
# The shortest decimal of a double

`shortest` finds the fewest digits that read back as a double and, of those, the ones nearest to it.
For each number of digits it looks at the two neighbours of the value on the grid of decimals with
that many digits, in exact arithmetic; the first grid with a neighbour in the interval of numbers
that round to the double wins.

`number` is the form in which a cell stores a number: an integer without a fraction, any other value
in its shortest digits, always positional.
-/

namespace SheetTemplate.Decimal

/-- A positive double on the grid of the multiples of `10 ^ k`: value, ends of the interval that
rounds to it and grid unit, all over one denominator. -/
structure Grid where
  value : Nat
  lower : Nat
  upper : Nat
  unit : Nat
  /-- The ends of the interval round to the double too. -/
  closed : Bool

/-- The grid of the multiples of `10 ^ k`. The next smaller double is only half as far away where
the mantissa is the least of its exponent. -/
def Magnitude.grid (v : Magnitude) (k : Int) : Grid :=
  -- Counted in quarters of the last place, because the interval may end at a quarter.
  let scale := Nat.pow 2 (v.exponent - 2).toNat * Nat.pow 10 (-k).toNat
  let below := if v.mantissa = Nat.pow 2 52 ∧ -1074 < v.exponent then 1 else 2
  { value := 4 * v.mantissa * scale
    lower := (4 * v.mantissa - below) * scale
    upper := (4 * v.mantissa + 2) * scale
    unit := Nat.pow 10 k.toNat * Nat.pow 2 (2 - v.exponent).toNat
    closed := v.mantissa % 2 = 0 }

/-- Whether a point of the grid rounds to the double. -/
def Grid.holds (g : Grid) (d : Nat) : Bool :=
  if g.closed then g.lower ≤ d * g.unit && d * g.unit ≤ g.upper
  else g.lower < d * g.unit && d * g.unit < g.upper

/-- The point of the grid next to the value that rounds to the double; of two the nearer, and the
upper one where both are equally near. -/
def Grid.point? (g : Grid) : Option Nat :=
  let d := g.value / g.unit
  match g.holds d, g.holds (d + 1) with
  | true, true => if (d + 1) * g.unit - g.value ≤ g.value - d * g.unit then some (d + 1) else some d
  | true, false => some d
  | false, true => some (d + 1)
  | false, false => none

/-- The largest `e` with `10 ^ e` at most the value of a positive double. -/
def Magnitude.order (v : Magnitude) : Int :=
  -- The least double is above 10 ^ -400, so the scaled value has a digit.
  let scaled :=
    v.mantissa * Nat.pow 2 v.exponent.toNat * Nat.pow 10 400 / Nat.pow 2 (-v.exponent).toNat
  (Nat.toDigits 10 scaled).length - 401

/-- Tries grids with `count` digits and more, at most `tries` of them. -/
def Magnitude.shortestFrom (v : Magnitude) (order : Int) : Nat → Nat → Nat × Int
  | 0, count => ((v.grid (order + 1 - count)).value / (v.grid (order + 1 - count)).unit,
      order + 1 - count)
  | tries + 1, count =>
    match (v.grid (order + 1 - count)).point? with
    | some d => (d, order + 1 - count)
    | none => v.shortestFrom order tries (count + 1)

/-- The shortest digits of a positive double and the power of ten they count. Seventeen digits
always read back. -/
def Magnitude.shortest (v : Magnitude) : Nat × Int := v.shortestFrom v.order 17 1

/-- Positional notation of `digits · 10 ^ exponent`. -/
def positional (digits : Nat) (exponent : Int) : List Char :=
  let ds := Nat.toDigits 10 digits
  if 0 ≤ exponent then ds ++ List.replicate exponent.toNat '0'
  else
    let places := (-exponent).toNat
    let padded := List.replicate (places + 1 - ds.length) '0' ++ ds
    let whole := padded.take (padded.length - places)
    -- Zeros at the end of the fraction say nothing.
    let part := (padded.drop (padded.length - places)).reverse.dropWhile (· == '0')
    if part.isEmpty then whole else whole ++ '.' :: part.reverse

/-- The value of a double that is a whole number. -/
def Magnitude.whole? (v : Magnitude) : Option Nat :=
  let den := Nat.pow 2 (-v.exponent).toNat
  if v.mantissa % den = 0 then some (v.mantissa / den * Nat.pow 2 v.exponent.toNat) else none

/-- The digits of a finite double without its sign. -/
def Magnitude.digits (v : Magnitude) : List Char :=
  match v.whole?.filter (· < Nat.pow 10 15) with
  | some n => Nat.toDigits 10 n
  | none => positional v.shortest.1 v.shortest.2

/-- The text in which a cell stores a number. Zero has no sign. -/
def number (x : Double) : String :=
  match x.magnitude? with
  | some v => String.ofList (if x.isNegative && v.mantissa != 0 then '-' :: v.digits else v.digits)
  | none => if x.isNaN then "NaN" else if x.isNegative then "-inf" else "inf"

end SheetTemplate.Decimal
