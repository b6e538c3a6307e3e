/-
ScriptRegistry/Time/Moment.lean

Moments of universal time, to the nanosecond.

A `Moment` is a date of the Gregorian calendar with a time of day.  The second
may be 60, for a leap second, in any minute: which minutes have one is not
checked.  `shiftMinutes` moves a moment by less than two days and stays inside
the calendar, and `render` writes the standard form, with a fraction of zero,
three, six or nine digits, as few as the nanoseconds need.
-/
import ScriptRegistry.Decimal.Shortest

namespace ScriptRegistry.Time

/-- Whether a year of the Gregorian calendar is a leap year. -/
def isLeap (year : Int) : Bool :=
  year % 4 == 0 && (year % 100 != 0 || year % 400 == 0)

/-- The number of days of a month; no month has the number 0 or one above 12. -/
def daysIn (year : Int) (month : Nat) : Nat :=
  match month with
  | 2 => if isLeap year then 29 else 28
  | 4 | 6 | 9 | 11 => 30
  | 1 | 3 | 5 | 7 | 8 | 10 | 12 => 31
  | _ => 0

/-- The first year of the calendar. -/
def firstYear : Int := -262143

/-- The last year of the calendar. -/
def lastYear : Int := 262142

/-- Whether the numbers make a date and a time of day. -/
def isCivil (year : Int) (month day hour minute second nano : Nat) : Bool :=
  firstYear ≤ year && year ≤ lastYear && 1 ≤ day && day ≤ daysIn year month &&
    hour < 24 && minute < 60 && second ≤ 60 && nano < 1000000000

/-- A moment of universal time. -/
structure Moment where
  year : Int
  month : Nat
  day : Nat
  hour : Nat
  minute : Nat
  second : Nat
  nano : Nat
  civil : isCivil year month day hour minute second nano = true
  deriving DecidableEq, Repr

/-- The moment with the given numbers, if they make one. -/
def Moment.ofCivil? (year : Int) (month day hour minute second nano : Nat) : Option Moment :=
  if h : isCivil year month day hour minute second nano = true then
    some ⟨year, month, day, hour, minute, second, nano, h⟩
  else none

/-- The start of the year 1970. -/
def Moment.epoch : Moment :=
  ⟨1970, 1, 1, 0, 0, 0, 0, by decide⟩

/-- The date of the day after. -/
def dayAfter (year : Int) (month day : Nat) : Int × Nat × Nat :=
  if day < daysIn year month then (year, month, day + 1)
  else if month < 12 then (year, month + 1, 1)
  else (year + 1, 1, 1)

/-- The date of the day before. -/
def dayBefore (year : Int) (month day : Nat) : Int × Nat × Nat :=
  if 1 < day then (year, month, day - 1)
  else if 1 < month then (year, month - 1, daysIn year (month - 1))
  else (year - 1, 12, 31)

/-- The moment the given number of minutes later, of less than a day in either direction; none if
the calendar does not have it. -/
def Moment.shiftMinutes (m : Moment) (minutes : Int) : Option Moment :=
  let total : Int := m.hour * 60 + m.minute + minutes
  let (year, month, day) :=
    if total < 0 then dayBefore m.year m.month m.day
    else if total < 1440 then (m.year, m.month, m.day)
    else dayAfter m.year m.month m.day
  let inDay := (total % 1440).toNat
  Moment.ofCivil? year month day (inDay / 60) (inDay % 60) m.second m.nano

/-- A number written with at least the given number of digits. -/
def padded (width n : Nat) : List Char :=
  let ds := Decimal.digits n
  List.replicate (width - ds.length) '0' ++ ds

/-- A year: four digits, or a sign and at least four digits outside the years 0 to 9999. -/
def renderYear (year : Int) : List Char :=
  if 0 ≤ year && year ≤ 9999 then padded 4 year.toNat
  else (if year < 0 then '-' else '+') :: padded 4 year.natAbs

/-- The fraction of a second, after its point. -/
def renderFraction (nano : Nat) : List Char :=
  if nano = 0 then []
  else if nano % 1000000 = 0 then '.' :: padded 3 (nano / 1000000)
  else if nano % 1000 = 0 then '.' :: padded 6 (nano / 1000)
  else '.' :: padded 9 nano

/-- The standard form of a moment. -/
def Moment.renderChars (m : Moment) : List Char :=
  renderYear m.year ++ '-' :: padded 2 m.month ++ '-' :: padded 2 m.day ++ 'T' ::
    padded 2 m.hour ++ ':' :: padded 2 m.minute ++ ':' :: padded 2 m.second ++
    renderFraction m.nano ++ ['Z']

/-- The standard form of a moment, as a text. -/
def Moment.render (m : Moment) : String :=
  String.ofList m.renderChars

end ScriptRegistry.Time
