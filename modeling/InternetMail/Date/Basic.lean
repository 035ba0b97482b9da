import InternetMail.Date.Calendar
import InternetMail.Text.Basic

/-!
# Dates

A date is a moment, and the offset from universal time of the clock that it is told by. Dates are
compared as moments. `Date.format` writes a date as mail has it, `Date.timestamp` as internet
protocols do.

A leap second has nanoseconds past the billion and counts as the second before it.
-/

namespace InternetMail

/-- A moment, told by a clock with an offset from universal time. -/
structure Date where
  /-- The seconds since the beginning of 1970, without leap seconds. -/
  seconds : Int
  nanos : Nat
  /-- How many seconds the clock is ahead of universal time. -/
  offset : Int
  deriving DecidableEq

namespace Date

instance : Ord Date where
  compare a b := (compare a.seconds b.seconds).then (compare a.nanos b.nanos)

/-! ### What the clock shows -/

/-- The seconds that the clock shows, counted like those of the date. -/
def localSeconds (d : Date) : Int := d.seconds + d.offset

/-- The number of the day that the clock shows. -/
def dayNumber (d : Date) : Int := d.localSeconds / 86400

/-- The day that the clock shows. -/
def day (d : Date) : CalendarDay := .ofNumber d.dayNumber

/-- The second of the day that the clock shows. -/
def secondOfDay (d : Date) : Nat := (d.localSeconds % 86400).toNat

/-! ### Writing -/

/-- The names of the weekdays, Sunday first. -/
def weekdays : List String := ["Sun", "Mon", "Tue", "Wed", "Thu", "Fri", "Sat"]

/-- The names of the months. -/
def months : List String :=
  ["Jan", "Feb", "Mar", "Apr", "May", "Jun", "Jul", "Aug", "Sep", "Oct", "Nov", "Dec"]

/-- A number in at least `width` digits. -/
def padded (width n : Nat) : Text :=
  let digits := Nat.toDigits 10 n
  List.replicate (width - digits.length) '0' ++ digits

/-- The time of the day, with a leap second counted. -/
def formatTime (d : Date) : Text :=
  padded 2 (d.secondOfDay / 3600) ++ ':' :: padded 2 (d.secondOfDay / 60 % 60) ++
    ':' :: padded 2 (d.secondOfDay % 60 + d.nanos / 1000000000)

/-- The offset in hours and minutes, to the nearest minute, with `between` between them. -/
def formatOffset (between : Text) (d : Date) : Text :=
  let minutes := (d.offset.natAbs + 30) / 60
  (if d.offset < 0 then '-' else '+') :: padded 2 (minutes / 60) ++ between ++
    padded 2 (minutes % 60)

/-- The date as mail has it, such as `Tue, 1 Jul 2003 10:52:37 +0200`. -/
def format (d : Date) : Text :=
  (weekdays.getD (CalendarDay.weekdayOf d.dayNumber) "").toList ++ [',', ' '] ++
    padded 1 d.day.day ++ ' ' :: (months.getD (d.day.month - 1) "").toList ++
    ' ' :: padded 4 d.day.year.toNat ++ ' ' :: d.formatTime ++ ' ' :: d.formatOffset []

/-- A year; one that does not have four digits has a sign. -/
def formatYear (year : Int) : Text :=
  if 0 ≤ year ∧ year ≤ 9999 then padded 4 year.toNat
  else (if year < 0 then '-' else '+') :: padded 4 year.natAbs

/-- The fraction of a second, in thousandths, millionths or billionths, if there is one. -/
def formatFraction (nanos : Nat) : Text :=
  let nanos := nanos % 1000000000
  if nanos = 0 then []
  else if nanos % 1000000 = 0 then '.' :: padded 3 (nanos / 1000000)
  else if nanos % 1000 = 0 then '.' :: padded 6 (nanos / 1000)
  else '.' :: padded 9 nanos

/-- The date as internet protocols have it, such as `2003-07-01T10:52:37+02:00`. -/
def timestamp (d : Date) : Text :=
  formatYear d.day.year ++ '-' :: padded 2 d.day.month ++ '-' :: padded 2 d.day.day ++
    'T' :: d.formatTime ++ formatFraction d.nanos ++ d.formatOffset [':']

end Date

end InternetMail
