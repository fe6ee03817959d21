import InventoryGauges.Timestamp

/-!
# Calendar dates

Timestamps as dates and times of day in UTC, in the Gregorian calendar
continued to all years.
-/

namespace InventoryGauges
namespace Calendar

/-- A date of the Gregorian calendar. -/
structure Date where
  /-- The year, with a year zero. -/
  year : Int
  /-- The month, from one. -/
  month : Nat
  /-- The day of the month, from one. -/
  day : Nat
  deriving DecidableEq, Repr

/-- Days in an era of 400 years. -/
def daysPerEra : Int := 146097

/-- Days from the first of March of year zero to the Unix epoch. -/
def epochOffset : Int := 719468

/-- The date some days after the Unix epoch.  Years are counted from March, so
that a leap day ends its year. -/
def Date.ofDays (days : Int) : Date :=
  let shifted := days + epochOffset
  let era := Int.fdiv shifted daysPerEra
  let dayOfEra := (Int.fmod shifted daysPerEra).toNat
  let yearOfEra := (dayOfEra - dayOfEra / 1460 + dayOfEra / 36524 - dayOfEra / 146096) / 365
  let dayOfYear := dayOfEra - (365 * yearOfEra + yearOfEra / 4 - yearOfEra / 100)
  let monthFromMarch := (5 * dayOfYear + 2) / 153
  let month := if monthFromMarch < 10 then monthFromMarch + 3 else monthFromMarch - 9
  { year := era * 400 + yearOfEra + (if month ≤ 2 then 1 else 0)
    month
    day := dayOfYear - (153 * monthFromMarch + 2) / 5 + 1 }

/-- First and last year that can be shown. -/
def firstYear : Int := -262143

def lastYear : Int := 262142

/-- Four digits, or a sign and at least four digits outside the years 0 to
9999. -/
def yearText (year : Int) : List Char :=
  if 0 ≤ year && year ≤ 9999 then Decimal.paddedDigits 4 year.toNat
  else (if year < 0 then '-' else '+') :: Decimal.paddedDigits 4 year.natAbs

def millisPerDay : Int := 86400000

/-- Date and time of day of a number of milliseconds. -/
def momentText (millis : Int) : List Char :=
  let date := Date.ofDays (Int.fdiv millis millisPerDay)
  let ofDay := (Int.fmod millis millisPerDay).toNat
  let two := Decimal.paddedDigits 2
  yearText date.year ++ '-' :: two date.month ++ '-' :: two date.day ++
    ' ' :: two (ofDay / 3600000) ++ ':' :: two (ofDay / 60000 % 60) ++
    ':' :: two (ofDay / 1000 % 60) ++ '.' :: Decimal.paddedDigits 3 (ofDay % 1000) ++
    " UTC".toList

end Calendar

/-- Date and time of day of a timestamp; one that cannot be shown counts as the
epoch. -/
def Timestamp.display (time : Timestamp) : String :=
  let millis := time.millis.toInt
  let year := (Calendar.Date.ofDays (Int.fdiv millis Calendar.millisPerDay)).year
  let shown := if Calendar.firstYear ≤ year && year ≤ Calendar.lastYear then millis else 0
  String.ofList (Calendar.momentText shown)

end InventoryGauges
