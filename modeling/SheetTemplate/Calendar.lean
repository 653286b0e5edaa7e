import SheetTemplate.Decimal.Double

/-!
# Calendar dates

Dates of the Gregorian calendar, extended to all years, with a time of day. A cell holds a date as
the number of days since the end of 1899, so that the first day of 1970 is day 25569.
-/

namespace SheetTemplate

/-- A date with a time of day. -/
structure DateTime where
  year : Int
  month : Nat
  day : Nat
  hour : Nat := 0
  minute : Nat := 0
  second : Nat := 0
  nanosecond : Nat := 0
deriving DecidableEq, Repr, Inhabited

namespace DateTime

/-- Days from the first of March of year zero to a date. Years are counted from March, so that a
leap day is the last day of its year; 153 days make up any five months from March on. -/
def daysFromMarch (d : DateTime) : Int :=
  let year := if d.month ≤ 2 then d.year - 1 else d.year
  let month := (d.month + 9) % 12
  365 * year + year.fdiv 4 - year.fdiv 100 + year.fdiv 400 + (153 * month + 2) / 5 + d.day - 1

/-- Days from the first day of 1970 to a date. -/
def daysFromEpoch (d : DateTime) : Int := d.daysFromMarch - 719468

/-- Whole milliseconds from the start of 1970 to a date and time. -/
def milliseconds (d : DateTime) : Int :=
  (d.daysFromEpoch * 86400 + d.hour * 3600 + d.minute * 60 + d.second) * 1000 +
    d.nanosecond / 1000000

/-- The number of days that a cell holds for a date. -/
def serial (d : DateTime) : Decimal.Double :=
  .ofFloat (Float.ofInt d.milliseconds / 86400000.0 + 25569.0)

/-- A number with leading zeros. -/
def padded (width n : Nat) : String :=
  let ds := Nat.toDigits 10 n
  String.ofList (List.replicate (width - ds.length) '0' ++ ds)

/-- A year as four digits, with a sign outside the years 0 to 9999. -/
def yearText (y : Int) : String :=
  if y < 0 then "-" ++ padded 4 y.natAbs else if y < 10000 then padded 4 y.natAbs
  else "+" ++ padded 5 y.natAbs

/-- A date and time with nine places of seconds. A leap second, which is given by a thousand million
nanoseconds and more, is written as the next second of its minute. -/
def text (d : DateTime) : String :=
  yearText d.year ++ "-" ++ padded 2 d.month ++ "-" ++ padded 2 d.day ++ "T" ++ padded 2 d.hour ++
    ":" ++ padded 2 d.minute ++ ":" ++ padded 2 (d.second + d.nanosecond / Nat.pow 10 9) ++ "." ++
    padded 9 (d.nanosecond % Nat.pow 10 9)

end DateTime

end SheetTemplate
