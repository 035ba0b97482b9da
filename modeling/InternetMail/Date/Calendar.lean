/-!
# The calendar

Days of the Gregorian calendar, also for the years before it came into use, and the number of days
from the first of January 1970 to each. Counting goes by years that begin in March, so that the leap
day comes last and the months before it have the lengths 31, 30, 31, 30, 31 twice over.
-/

namespace InternetMail

/-- A day of the calendar. -/
structure CalendarDay where
  year : Int
  month : Nat
  day : Nat
  deriving DecidableEq

namespace CalendarDay

/-- Whether a year has a leap day. -/
def isLeap (year : Int) : Bool :=
  year % 4 = 0 && (year % 100 ≠ 0 || year % 400 = 0)

/-- The number of days of a month. -/
def monthLength (year : Int) (month : Nat) : Nat :=
  if month = 2 then (if isLeap year then 29 else 28)
  else if month = 4 || month = 6 || month = 9 || month = 11 then 30
  else 31

/-- Whether there is such a day. -/
def isValid (d : CalendarDay) : Bool :=
  1 ≤ d.month && d.month ≤ 12 && 1 ≤ d.day && d.day ≤ monthLength d.year d.month

/-- The days of a year from March on that lie before a month, March being 0. -/
def daysBefore (month : Nat) : Nat :=
  (153 * month + 2) / 5

/-- The number of the first of March of year 0, counted from 1970. -/
def epoch : Int := 719468

/-- The number of a day, counted from the first of January 1970. -/
def number (d : CalendarDay) : Int :=
  let year := if d.month ≤ 2 then d.year - 1 else d.year
  let month := if d.month ≤ 2 then d.month + 9 else d.month - 3
  365 * year + year / 4 - year / 100 + year / 400 + daysBefore month + d.day - 1 - epoch

/-- The day of a number. Four centuries have 146097 days; within them the years are counted off
after taking out the leap days. -/
def ofNumber (n : Int) : CalendarDay :=
  let n := n + epoch
  let dayOfEra := (n % 146097).toNat
  let yearOfEra :=
    (dayOfEra - dayOfEra / 1460 + dayOfEra / 36524 - dayOfEra / 146096) / 365
  let dayOfYear := dayOfEra - (365 * yearOfEra + yearOfEra / 4 - yearOfEra / 100)
  let month := (5 * dayOfYear + 2) / 153
  let year := n / 146097 * 400 + yearOfEra
  { year := if month < 10 then year else year + 1
    month := if month < 10 then month + 3 else month - 9
    day := dayOfYear - daysBefore month + 1 }

/-- The weekday of a day number, Sunday being 0. -/
def weekdayOf (n : Int) : Nat :=
  ((n + 4) % 7).toNat

example : number ⟨1970, 1, 1⟩ = 0 := by decide
example : number ⟨2000, 2, 29⟩ = 11016 := by decide
example : ofNumber 11016 = ⟨2000, 2, 29⟩ := by decide
example : ofNumber (-1) = ⟨1969, 12, 31⟩ := by decide

end CalendarDay

end InternetMail
