import SheetTemplate.Decimal.Double

/-!
# Reading doubles

A double is written as digits with an optional point and an optional exponent, or as one of the
words `inf`, `infinity` and `nan` in any case, after an optional sign. The value is the double
nearest to the number written.
-/

namespace SheetTemplate.Decimal

/-- The number that digits denote. -/
def ofDigits (ds : List Char) : Nat := Nat.ofDigitChars 10 ds 0

/-- Splits an optional sign off; whether it is minus, and the rest. -/
def signed : List Char → Bool × List Char
  | '-' :: r => (true, r)
  | '+' :: r => (false, r)
  | cs => (false, cs)

/-- The exponent written at the end of a number, zero if there is none. -/
def exponent? : List Char → Option Int
  | [] => some 0
  | c :: r =>
    if c = 'e' ∨ c = 'E' then
      let (negative, ds) := signed r
      if ds.isEmpty || !ds.all Char.isDigit then none
      else some (if negative then -(ofDigits ds : Int) else ofDigits ds)
    else none

/-- Splits the digits after a point off, if a point comes first. -/
def fraction : List Char → List Char × List Char
  | '.' :: r => (r.takeWhile Char.isDigit, r.dropWhile Char.isDigit)
  | cs => ([], cs)

/-- The double that an unsigned number denotes. -/
def unsigned? (negative : Bool) (cs : List Char) : Option Double :=
  let whole := cs.takeWhile Char.isDigit
  let (part, rest) := fraction (cs.dropWhile Char.isDigit)
  if whole.isEmpty && part.isEmpty then none
  else
    (exponent? rest).map fun e =>
      .nearestDecimal negative (ofDigits (whole ++ part)) (e - part.length)

/-- The double that a text denotes. -/
def double? (cs : List Char) : Option Double :=
  let (negative, rest) := signed cs
  let word := rest.map Char.toLower
  if word = ['i', 'n', 'f'] ∨ word = ['i', 'n', 'f', 'i', 'n', 'i', 't', 'y'] then
    some (.infinity negative)
  else if word = ['n', 'a', 'n'] then some (.nan negative)
  else unsigned? negative rest

end SheetTemplate.Decimal
