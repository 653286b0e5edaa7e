/-!
# Doubles as exact numbers

A double is stored in 64 bits: its sign, eleven bits of exponent and 52 of fraction. The largest
exponent is that of infinity and of NaN, which has a sign as well.

A finite double is `± m · 2^q`. `Double.magnitude?` takes it apart, and `Double.nearest` goes the
other way: it gives the double nearest to a fraction of natural numbers, a tie going to the even
mantissa and what is too large to infinity.
-/

namespace SheetTemplate.Decimal

/-- The number `mantissa · 2 ^ exponent`. -/
structure Magnitude where
  mantissa : Nat
  exponent : Int
deriving DecidableEq, Repr, Inhabited

/-- A double, by the bits that store it. -/
structure Double where
  bits : UInt64
deriving DecidableEq, Repr, Inhabited

namespace Double

/-- The value for arithmetic, to which all NaNs are one. -/
def toFloat (x : Double) : Float := Float.ofBits x.bits

/-- The result of arithmetic. -/
def ofFloat (x : Float) : Double := ⟨x.toBits⟩

/-- Whether the sign is minus. -/
def isNegative (x : Double) : Bool := Nat.pow 2 63 ≤ x.bits.toNat

/-- The stored exponent. -/
def exponent (x : Double) : Nat := x.bits.toNat / Nat.pow 2 52 % 2048

/-- The stored fraction. -/
def fraction (x : Double) : Nat := x.bits.toNat % Nat.pow 2 52

/-- Whether there is no number. -/
def isNaN (x : Double) : Bool := x.exponent == 2047 && x.fraction != 0

/-- Whether there is a number. -/
def isFinite (x : Double) : Bool := x.exponent != 2047

/-- The absolute value of a finite double. -/
def magnitude? (x : Double) : Option Magnitude :=
  if x.exponent = 2047 then none
  else if x.exponent = 0 then some ⟨x.fraction, -1074⟩
  else some ⟨Nat.pow 2 52 + x.fraction, (x.exponent : Int) - 1075⟩

/-- The double with a sign and the other bits. -/
def withSign (negative : Bool) (rest : Nat) : Double :=
  ⟨UInt64.ofNat (rest + if negative then Nat.pow 2 63 else 0)⟩

end Double

/-- The quotient rounded to the nearest number, a tie to the even one. -/
def roundDiv (num den : Nat) : Nat :=
  let q := num / den
  let r := num % den
  if 2 * r < den then q
  else if den < 2 * r then q + 1
  else if q % 2 = 0 then q else q + 1

/-- The largest `e` with `2 ^ e ≤ num / den`. -/
def log2Ratio (num den : Nat) : Int :=
  let e : Int := (num.log2 : Int) - den.log2
  if den * Nat.pow 2 e.toNat ≤ num * Nat.pow 2 (-e).toNat then e else e - 1

/-- The bits of positive infinity. -/
def infinityBits : Nat := 2047 * Nat.pow 2 52

/-- The bits of the double nearest to `num / den`. The mantissa has 53 bits, or fewer at the least
exponent; rounding up to a power of two carries into the exponent by itself. -/
def nearestBits (num den : Nat) : Nat :=
  if num = 0 then 0
  else
    -- The exponent of the last place that the mantissa has.
    let q := max (log2Ratio num den - 52) (-1074)
    let m := roundDiv (num * Nat.pow 2 (-q).toNat) (den * Nat.pow 2 q.toNat)
    min ((q + 1074).toNat * Nat.pow 2 52 + m) infinityBits

namespace Double

/-- Infinity. -/
def infinity (negative : Bool) : Double := withSign negative infinityBits

/-- The NaN that stands for no number at all. -/
def nan (negative : Bool) : Double := withSign negative (infinityBits + Nat.pow 2 51)

/-- The double nearest to `num / den`, negated if asked. -/
def nearest (negative : Bool) (num den : Nat) : Double := withSign negative (nearestBits num den)

/-- The double nearest to `digits · 10 ^ exponent`. Exponents far outside the range of doubles are
settled by the number of digits alone. -/
def nearestDecimal (negative : Bool) (digits : Nat) (exponent : Int) : Double :=
  let order := (Nat.toDigits 10 digits).length + exponent
  if digits = 0 ∨ order < -330 then nearest negative 0 1
  else if 330 < order then nearest negative (Nat.pow 2 2000) 1
  else nearest negative (digits * Nat.pow 10 exponent.toNat) (Nat.pow 10 (-exponent).toNat)

end Double

end SheetTemplate.Decimal
