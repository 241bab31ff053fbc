/-
ReminderExpr.Calendar — days counted from 1 January 1990.

Day 0 is 1990-01-01, a Monday; the Gregorian rule for leap years holds in
both directions without end.

* `dayCount` — the day of a year, month and day of the month.
* `CivilDate.ofDay` — the year, month and day of the month of a day.
* `dayOfCivil` — `dayCount` for the dates that a literal may name, which
  lie in the years 1990 to 2078.
* `weekday` — the day of the week, counted from Monday.
-/
import ReminderExpr.EvalError

namespace ReminderExpr.Calendar

/-- The year of day 0. -/
def baseYear : Int := 1990

/-- The last year in which a date can be written. -/
def lastYear : Int := 2078

/-- The minutes of a day. -/
def minutesPerDay : Int := 1440

/-- The days of four hundred years, after which the leap years repeat. -/
def daysPerCycle : Int := 146097

/-- The English months, from January. -/
def monthNames : List String :=
  ["January", "February", "March", "April", "May", "June", "July", "August",
   "September", "October", "November", "December"]

/-- The English days of the week, from Monday. -/
def dayNames : List String :=
  ["Monday", "Tuesday", "Wednesday", "Thursday", "Friday", "Saturday", "Sunday"]

/-- Every fourth year is a leap year, except the hundredth ones that are not
also four hundredth ones. -/
def isLeapYear (year : Int) : Bool :=
  year % 4 == 0 && !(year % 100 == 0 && year % 400 != 0)

/-- The length of a month, counted from 1; there are none outside 1 to 12. -/
def daysInMonth (month : Nat) (year : Int) : Nat :=
  match month with
  | 1 | 3 | 5 | 7 | 8 | 10 | 12 => 31
  | 4 | 6 | 9 | 11 => 30
  | 2 => if isLeapYear year then 29 else 28
  | _ => 0

/-- The length of a year. -/
def daysInYear (year : Int) : Nat := if isLeapYear year then 366 else 365

/-- The days of a year before the first of a month; a month outside 1 to 12
counts as the nearest one. -/
def daysBeforeMonth (month : Nat) (year : Int) : Nat :=
  (List.range (min month 12 - 1)).foldr (fun m days => daysInMonth (m + 1) year + days) 0

/-- A count of leap years that grows by one over each leap year before `year`. -/
def leapYearsBefore (year : Int) : Int :=
  (year - 1) / 4 - (year - 1) / 100 + (year - 1) / 400

/-- The day on which a date falls. A day of the month beyond the month's end
runs on into the next one. -/
def dayCount (year : Int) (month day : Nat) : Int :=
  365 * (year - baseYear) + (leapYearsBefore year - leapYearsBefore baseYear)
    + daysBeforeMonth month year + day - 1

/-! ## Dates by year, month and day of the month -/

/-- A date by its parts; months and days of the month count from 1. -/
structure CivilDate where
  year : Int
  month : Nat
  day : Nat
  deriving DecidableEq, Repr

/-- The year in which the day number `day`, counted from the start of `year`,
falls, and its number in that year; at most `years` years are passed over. -/
def passYears : (years : Nat) → (year : Int) → (day : Nat) → Int × Nat
  | 0, year, day => (year, day)
  | years + 1, year, day =>
      if day < daysInYear year then (year, day)
      else passYears years (year + 1) (day - daysInYear year)

/-- The month in which the day number `day`, counted from the first of
`month`, falls, and its number in that month; at most `months` are passed. -/
def passMonths (year : Int) : (months : Nat) → (month day : Nat) → Nat × Nat
  | 0, month, day => (month, day)
  | months + 1, month, day =>
      if day < daysInMonth month year then (month, day)
      else passMonths year months (month + 1) (day - daysInMonth month year)

/-- The date of a day: whole cycles of four hundred years first, then years,
then months. -/
def CivilDate.ofDay (day : Int) : CivilDate :=
  let (year, dayOfYear) :=
    passYears 399 (baseYear + 400 * (day / daysPerCycle)) (day % daysPerCycle).toNat
  let (month, dayOfMonth) := passMonths year 11 1 dayOfYear
  { year, month, day := dayOfMonth + 1 }

/-- Whether a date exists and lies in the years that can be written. -/
def isDate (year : Int) (month day : Nat) : Bool :=
  decide (baseYear ≤ year) && decide (year ≤ lastYear)
    && decide (1 ≤ month) && decide (month ≤ 12)
    && decide (1 ≤ day) && decide (day ≤ daysInMonth month year)

/-- The day of a date that can be written. -/
def dayOfCivil (year : Int) (month day : Nat) : Result Int :=
  if isDate year month day then .ok (dayCount year month day) else .error .badDate

/-! ## Days of the week and names -/

/-- The day of the week, with Monday as 0. -/
def weekday (day : Int) : Fin 7 := ⟨(day % 7).toNat, by omega⟩

/-- The day of the week, with Sunday as 0. -/
def weekdayFromSunday (day : Int) : Int := (day + 1) % 7

/-- The English name of a day of the week. -/
def weekdayName (weekday : Fin 7) : String := dayNames[weekday]

/-- The English name of a month counted from 1. -/
def monthName (month : Nat) : Option String :=
  if month = 0 then none else monthNames[month - 1]?

end ReminderExpr.Calendar
